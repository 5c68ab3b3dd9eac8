import Mathlib.Data.Nat.Digits.Defs
import Mathlib.Tactic.LinearCombination
import Cpm80.Proofs.Flags

/-!
# Numbers of many bytes

A program adds and subtracts numbers of many bytes from the lowest byte on, each place with the
carry that the place before has left. If every place is exact, the whole is exact, for any number
of places and whatever is done between them, as long as it leaves the carry alone.
-/
namespace Cpm80.Machine

variable {σ : Type}

/-! ## Places -/

/-- The byte that the instruction at the program counter combines with the accumulator by `op`,
if it does so: a register, the cell that HL points at, or the byte behind the opcode. -/
def operandOf? (op : Arithmetic) (m : Machine σ) : Option UInt8 :=
  match m.next with
  | .arithmetic other r => if other = op then some (m.getRegister r) else none
  | .arithmeticImmediate other => if other = op then some m.operandByte else none
  | _ => none

/-- A place of a chain: the byte `v` is combined with the accumulator. -/
def Combines (bus : Bus σ) (op : Arithmetic) (m : Machine σ) (v : UInt8) (n : Machine σ) : Prop :=
  m.cpu.halted = false ∧ m.operandOf? op = some v ∧ n = (m.step bus).1

/-- A chain of places. Each takes over the carry of the one before; the bytes of two numbers, the
lowest first, are combined to the bytes of a third. -/
inductive Chain (place : Machine σ → UInt8 → Machine σ → Prop) :
    Bool → List UInt8 → List UInt8 → List UInt8 → Bool → Prop
  | nil (carry : Bool) : Chain place carry [] [] [] carry
  | cons {m n : Machine σ} {v : UInt8} {as bs rs : List UInt8} {carry : Bool}
    (head : place m v n) (tail : Chain place n.carry as bs rs carry) :
    Chain place m.carry (m.cpu.a :: as) (v :: bs) (n.cpu.a :: rs) carry

/-- The number that bytes make up, the lowest first. -/
def number (base : Nat) (digit : UInt8 → Nat) (bytes : List UInt8) : Nat :=
  Nat.ofDigits base (bytes.map digit)

/-- The number that bytes make up in binary, the lowest first. -/
def binary : List UInt8 → Nat :=
  number 256 UInt8.toNat

variable {bus : Bus σ} {op : Arithmetic} {m n : Machine σ} {v : UInt8}
variable {place : Machine σ → UInt8 → Machine σ → Prop} {as bs rs : List UInt8}
variable {carry carry' : Bool}

@[simp] theorem number_nil (base : Nat) (digit : UInt8 → Nat) : number base digit [] = 0 := rfl

@[simp] theorem number_cons (base : Nat) (digit : UInt8 → Nat) (b : UInt8) (bytes : List UInt8) :
    number base digit (b :: bytes) = digit b + base * number base digit bytes :=
  Nat.ofDigits_cons

namespace Chain

theorem lengths (h : Chain place carry as bs rs carry') :
    bs.length = as.length ∧ rs.length = as.length := by
  induction h with
  | nil => simp
  | cons head tail ih => simpa using ih

/-- If every place is exact, a chain is exact. The second number counts `sign` times. -/
theorem exact (base : Nat) (digit : UInt8 → Nat) (sign : Int)
    (hplace : ∀ m v n, place m v n →
      (digit n.cpu.a + sign * (base * n.carry.toNat) : Int) =
        digit m.cpu.a + sign * (digit v + m.carry.toNat))
    (h : Chain place carry as bs rs carry') :
    (number base digit rs + sign * (carry'.toNat * base ^ as.length) : Int) =
      number base digit as + sign * (number base digit bs + carry.toNat) := by
  induction h with
  | nil => simp
  | @cons m n v as bs rs carry head tail ih =>
    have hhead := hplace m v n head
    simp only [number_cons, List.length_cons, Nat.cast_add, Nat.cast_mul]
    linear_combination hhead + base * ih

theorem exact_of_sums (base : Nat) (digit : UInt8 → Nat)
    (hplace : ∀ m v n, place m v n →
      digit n.cpu.a + base * n.carry.toNat = digit m.cpu.a + digit v + m.carry.toNat)
    (h : Chain place carry as bs rs carry') :
    number base digit rs + carry'.toNat * base ^ as.length =
      number base digit as + number base digit bs + carry.toNat := by
  have hexact := h.exact base digit 1 fun m v n hmvn => by
    have hsum := hplace m v n hmvn
    rw [one_mul, one_mul, ← Int.add_assoc]
    exact_mod_cast hsum
  rw [one_mul, one_mul, ← Int.add_assoc] at hexact
  exact_mod_cast hexact

end Chain

theorem cpu_step_of_operandOf? (h : m.cpu.halted = false) (hv : m.operandOf? op = some v) :
    (m.step bus).1.cpu = { m.cpu with pc := m.following }.arithmetic op v := by
  have hbyte : m.cpu.pc + 1 + 1 = m.cpu.pc + 2 := UInt16.add_assoc m.cpu.pc 1 1
  rw [step_running bus h, following]
  unfold operandOf? at hv
  split at hv
  case h_1 other r hnext =>
    split at hv
    case isFalse => cases hv
    case isTrue heq =>
      rw [hnext, ← Option.some.inj hv, ← heq]
      cases r <;> rfl
  case h_2 other hnext =>
    split at hv
    case isFalse => cases hv
    case isTrue heq =>
      rw [hnext, ← Option.some.inj hv, ← heq]
      simp only [execute, fetch, onCpu, hbyte]
      rfl
  case h_3 => cases hv

/-- An addition with carry is exact in its place. -/
theorem Combines.add_exact (h : Combines bus .addCarry m v n) :
    n.cpu.a.toNat + 256 * n.carry.toNat = m.cpu.a.toNat + v.toNat + m.carry.toNat := by
  obtain ⟨hrunning, hv, rfl⟩ := h
  rw [carry, cpu_step_of_operandOf? hrunning hv]
  exact Processor.add_exact { m.cpu with pc := m.following } v m.carry

/-- A subtraction with borrow is exact in its place. -/
theorem Combines.sub_exact (h : Combines bus .subBorrow m v n) :
    n.cpu.a.toNat + v.toNat + m.carry.toNat = m.cpu.a.toNat + 256 * n.carry.toNat := by
  obtain ⟨hrunning, hv, rfl⟩ := h
  rw [carry, carry, cpu_step_of_operandOf? hrunning hv]
  exact Processor.sub_exact { m.cpu with pc := m.following } v m.carry

theorem Chain.sum_exact (h : Chain (Combines bus .addCarry) carry as bs rs carry') :
    binary rs + carry'.toNat * 256 ^ as.length = binary as + binary bs + carry.toNat :=
  h.exact_of_sums 256 UInt8.toNat fun _ _ _ => Combines.add_exact

theorem Chain.difference_exact (h : Chain (Combines bus .subBorrow) carry as bs rs carry') :
    (binary rs : Int) - carry'.toNat * 256 ^ as.length = binary as - binary bs - carry.toNat := by
  have hplace (m : Machine σ) (v : UInt8) (n : Machine σ) (h : Combines bus .subBorrow m v n) :
      (n.cpu.a.toNat + -1 * ((256 : Nat) * n.carry.toNat) : Int) =
        m.cpu.a.toNat + -1 * (v.toNat + m.carry.toNat) := by
    have hdifference := h.sub_exact
    omega
  have hexact := exact 256 UInt8.toNat (-1) hplace h
  rw [binary]
  linear_combination hexact

/-! ## Every two numbers have a chain -/

/-- A chain can be gone on with by any bytes if there is a place for them. -/
theorem Chain.exists_of_places
    (hplace : ∀ a v carry, ∃ m n, m.cpu.a = a ∧ m.carry = carry ∧ place m v n)
    (hlength : as.length = bs.length) :
    ∃ rs carry', Chain place carry as bs rs carry' := by
  induction as generalizing bs carry with
  | nil =>
    obtain rfl := List.length_eq_zero_iff.mp hlength.symm
    exact ⟨[], carry, .nil carry⟩
  | cons a as ih =>
    cases bs with
    | nil => cases hlength
    | cons v bs =>
      obtain ⟨m, n, rfl, rfl, hhead⟩ := hplace a v carry
      obtain ⟨rs, carry', htail⟩ := ih (Nat.succ.inj hlength)
      exact ⟨n.cpu.a :: rs, carry', .cons hhead htail⟩

/-- A machine that is about to execute an opcode, with the bytes `a` and `v` in registers. -/
def aboutTo (opcode a v : UInt8) (carry : Bool) (devices : σ) : Machine σ where
  cpu := { Processor.initial with a, b := v }.setFlag Flag.carry carry
  memory := .ofFn fun _ => opcode
  devices

variable {a : UInt8} {opcode : UInt8} {devices : σ}

theorem next_aboutTo : (aboutTo opcode a v carry devices).next = .ofOpcode opcode := by
  simp [next, aboutTo]

/-- The opcode is not in the processor. -/
theorem cpu_aboutTo (other : UInt8) :
    (aboutTo opcode a v carry devices).cpu = (aboutTo other a v carry devices).cpu := by
  simp only [aboutTo]

@[simp] theorem halted_aboutTo : (aboutTo opcode a v carry devices).cpu.halted = false := rfl

@[simp] theorem a_aboutTo : (aboutTo opcode a v carry devices).cpu.a = a := rfl

@[simp] theorem carry_aboutTo : (aboutTo opcode a v carry devices).carry = carry :=
  Processor.carry_setFlag_carry _ carry

theorem operandOf?_aboutTo (h : Instruction.ofOpcode opcode = .arithmetic op .b) :
    (aboutTo opcode a v carry devices).operandOf? op = some v := by
  rw [operandOf?, next_aboutTo, h]
  simp [aboutTo, getRegister, Processor.setFlag]

theorem exists_ofOpcode_arithmetic (op : Arithmetic) :
    ∃ opcode, Instruction.ofOpcode opcode = .arithmetic op .b := by
  refine ⟨0x80 + 8 * UInt8.ofNat op.ctorIdx, ?_⟩
  cases op <;> decide

theorem exists_combines (bus : Bus σ) (op : Arithmetic) (devices : σ) (a v : UInt8)
    (carry : Bool) : ∃ m n, m.cpu.a = a ∧ m.carry = carry ∧ Combines bus op m v n := by
  obtain ⟨opcode, hopcode⟩ := exists_ofOpcode_arithmetic op
  exact ⟨aboutTo opcode a v carry devices, _, rfl, carry_aboutTo, rfl,
    operandOf?_aboutTo hopcode, rfl⟩

/-! ## Runs -/

/-- What comes together in a place of a chain. -/
structure Place where
  accumulator : UInt8
  operand : UInt8
  result : UInt8
  deriving DecidableEq, Repr

/-- The places at which a run combines bytes by `op`, in order. -/
def places (bus : Bus σ) (op : Arithmetic) : (limit : Nat) → Machine σ → List Place
  | 0, _ => []
  | limit + 1, m =>
    if m.cpu.halted then []
    else
      let n := (m.step bus).1
      match m.operandOf? op with
      | some v => ⟨m.cpu.a, v, n.cpu.a⟩ :: places bus op limit n
      | none => places bus op limit n

theorem places_of_some {limit : Nat} (h : m.cpu.halted = false) (hv : m.operandOf? op = some v) :
    m.places bus op (limit + 1) =
      ⟨m.cpu.a, v, (m.step bus).1.cpu.a⟩ :: (m.step bus).1.places bus op limit := by
  simp [places, h, hv]

theorem places_of_none {limit : Nat} (h : m.cpu.halted = false) (hv : m.operandOf? op = none) :
    m.places bus op (limit + 1) = (m.step bus).1.places bus op limit := by
  simp [places, h, hv]

/-- Whether nothing but the combining of bytes by `op` can affect the carry in a run. -/
def leavesCarryTo (bus : Bus σ) (op : Arithmetic) : (limit : Nat) → Machine σ → Bool
  | 0, _ => true
  | limit + 1, m =>
    m.cpu.halted ||
      ((m.operandOf? op).isSome || !m.next.affectsCarry) &&
        leavesCarryTo bus op limit (m.step bus).1

/-- In such a run the places make a chain, whatever is executed between them. -/
theorem chain_run {limit : Nat} (t : Tally) (h : m.leavesCarryTo bus op limit = true) :
    Chain (Combines bus op) m.carry ((m.places bus op limit).map Place.accumulator)
      ((m.places bus op limit).map Place.operand) ((m.places bus op limit).map Place.result)
      (m.run bus limit t).1.carry := by
  induction limit generalizing m t with
  | zero => exact .nil m.carry
  | succ limit ih =>
    rw [leavesCarryTo, Bool.or_eq_true, Bool.and_eq_true] at h
    rw [run]
    cases hrunning : m.cpu.halted with
    | true =>
      simp only [places, hrunning, if_true]
      exact .nil m.carry
    | false =>
      obtain ⟨hallowed, hrest⟩ := h.resolve_left (by simp [hrunning])
      have htail := ih ⟨t.instructions + 1, t.cycles + (m.step bus).2⟩ hrest
      simp only [Bool.false_eq_true, if_false]
      cases hv : m.operandOf? op with
      | some v =>
        rw [places_of_some hrunning hv]
        exact .cons ⟨hrunning, hv, rfl⟩ htail
      | none =>
        -- the instruction is none for the chain, so it leaves the carry to the next place
        have hkept : m.next.affectsCarry = false := by simpa [hv] using hallowed
        rw [places_of_none hrunning hv, ← carry_step m bus hkept]
        exact htail

/-! ## Comparisons -/

theorem flags_compare_congr {p q : Processor} (ha : p.a = q.a) (hflags : p.flags = q.flags)
    (v : UInt8) (borrowIn : Bool) :
    (p.compare v borrowIn).flags = (q.compare v borrowIn).flags := by
  simp only [Processor.compare, Processor.setResult, Processor.setFlag, ha, hflags]

/-- A comparison leaves the flags of a subtraction, and the accumulator as it is. -/
theorem compare_step (hm : m.cpu.halted = false) (hn : n.cpu.halted = false)
    (hcompare : m.operandOf? .compare = some v) (hsub : n.operandOf? .sub = some v)
    (ha : n.cpu.a = m.cpu.a) (hflags : n.cpu.flags = m.cpu.flags) :
    (m.step bus).1.cpu.flags = (n.step bus).1.cpu.flags ∧ (m.step bus).1.cpu.a = m.cpu.a ∧
      ((m.step bus).1.carry = true ↔ m.cpu.a < v) := by
  rw [carry, cpu_step_of_operandOf? hm hcompare, cpu_step_of_operandOf? hn hsub]
  refine ⟨flags_compare_congr ha.symm hflags.symm v false, Processor.a_compare _ v false, ?_⟩
  have hcarry := Processor.carry_compare { m.cpu with pc := m.following } v false
  rw [Processor.arithmetic, hcarry, decide_eq_true_iff, UInt8.lt_iff_toNat_lt]
  rfl

/-- Sums and differences of numbers of many bytes are exact if they are computed byte by byte
through the carry, and every two numbers of the same length can be so combined. A comparison
leaves the flags of the subtraction, with the carry for a smaller accumulator. Between the places
every instruction that does not affect the carry may be executed, as all that move a byte or
count: in a run of these the places make a chain. -/
theorem carry_chains_exact (bus : Bus σ) :
    (∀ carry as bs rs carry', Chain (Combines bus .addCarry) carry as bs rs carry' →
      rs.length = as.length ∧
        binary rs + carry'.toNat * 256 ^ as.length = binary as + binary bs + carry.toNat) ∧
    (∀ carry as bs rs carry', Chain (Combines bus .subBorrow) carry as bs rs carry' →
      rs.length = as.length ∧
        (binary rs : Int) - carry'.toNat * 256 ^ as.length =
          binary as - binary bs - carry.toNat) ∧
    (∀ (_ : σ) op carry as bs, as.length = bs.length →
      ∃ rs carry', Chain (Combines bus op) carry as bs rs carry') ∧
    (∀ (m n : Machine σ) v, m.cpu.halted = false → n.cpu.halted = false →
      m.operandOf? .compare = some v → n.operandOf? .sub = some v →
      n.cpu.a = m.cpu.a → n.cpu.flags = m.cpu.flags →
      (m.step bus).1.cpu.flags = (n.step bus).1.cpu.flags ∧ (m.step bus).1.cpu.a = m.cpu.a ∧
        ((m.step bus).1.carry = true ↔ m.cpu.a < v)) ∧
    (∀ i : Instruction, i.movesOrCounts = true → i.affectsCarry = false) ∧
    (∀ m : Machine σ, m.next.affectsCarry = false → (m.step bus).1.carry = m.carry) ∧
    (∀ op limit (m : Machine σ) t, m.leavesCarryTo bus op limit = true →
      Chain (Combines bus op) m.carry ((m.places bus op limit).map Place.accumulator)
        ((m.places bus op limit).map Place.operand) ((m.places bus op limit).map Place.result)
        (m.run bus limit t).1.carry) := by
  refine ⟨fun _ _ _ _ _ h => ⟨h.lengths.2, h.sum_exact⟩,
    fun _ _ _ _ _ h => ⟨h.lengths.2, h.difference_exact⟩, ?_,
    fun _ _ _ => compare_step, fun _ => Instruction.affectsCarry_of_movesOrCounts,
    fun m => carry_step m bus, fun _ _ _ t => chain_run t⟩
  intro devices op carry as bs hlength
  exact Chain.exists_of_places (exists_combines bus op devices) hlength

/-- A sum that overflows, a difference below zero, a comparison with a greater byte, an increment
of HL and a run of one addition. -/
theorem carry_chains_exact_twoBytes :
    (∃ (rs : List UInt8) (carry' : Bool), rs.length = 2 ∧
      binary rs + carry'.toNat * 256 ^ 2 = 0x80FF + 0x7F01 + 1) ∧
    (∃ (rs : List UInt8) (carry' : Bool), rs.length = 2 ∧
      (binary rs : Int) - carry'.toNat * 256 ^ 2 = 0x0100 - 0x0201 - 1) ∧
    ((aboutTo 0xB8 0x01 0x02 false ()).step (.none Unit)).1.carry = true ∧
    ((aboutTo 0x23 0x01 0x02 true ()).step (.none Unit)).1.carry = true ∧
    Chain (Combines (.none Unit) .addCarry) true [0xFF] [0x01] [0x01]
      ((aboutTo 0x88 0xFF 0x01 true ()).run (.none Unit) 1 {}).1.carry := by
  obtain ⟨hsum, hdifference, hexists, hcompare, hcounts, hkept, hrun⟩ :=
    carry_chains_exact (.none Unit)
  refine ⟨?_, ?_, ?_, ?_, ?_⟩
  · obtain ⟨rs, carry', hchain⟩ := hexists () .addCarry true [0xFF, 0x80] [0x01, 0x7F] rfl
    obtain ⟨hlength, hexact⟩ := hsum _ _ _ _ _ hchain
    exact ⟨rs, carry', hlength, by simpa [binary] using hexact⟩
  · obtain ⟨rs, carry', hchain⟩ := hexists () .subBorrow true [0x00, 0x01] [0x01, 0x02] rfl
    obtain ⟨hlength, hexact⟩ := hdifference _ _ _ _ _ hchain
    exact ⟨rs, carry', hlength, by simpa [binary] using hexact⟩
  · have hcompared : (aboutTo 0xB8 0x01 0x02 false ()).operandOf? .compare = some 0x02 :=
      operandOf?_aboutTo rfl
    have hsubtracted : (aboutTo 0x90 0x01 0x02 false ()).operandOf? .sub = some 0x02 :=
      operandOf?_aboutTo rfl
    have hcpu : (aboutTo 0x90 0x01 0x02 false ()).cpu = (aboutTo 0xB8 0x01 0x02 false ()).cpu :=
      cpu_aboutTo 0xB8
    have hless : (aboutTo 0xB8 0x01 0x02 false ()).cpu.a < 0x02 := by
      rw [a_aboutTo]
      decide
    exact (hcompare _ _ _ rfl rfl hcompared hsubtracted (by rw [hcpu]) (by rw [hcpu])).2.2.mpr hless
  · have hcounting : (aboutTo 0x23 0x01 0x02 true ()).next.movesOrCounts = true := by
      rw [next_aboutTo]
      rfl
    rw [hkept _ (hcounts _ hcounting), carry_aboutTo]
  · have hoperand : (aboutTo 0x88 0xFF 0x01 true ()).operandOf? .addCarry = some 0x01 :=
      operandOf?_aboutTo rfl
    have hresult : ((aboutTo 0x88 0xFF 0x01 true ()).step (.none Unit)).1.cpu.a = 0x01 := by
      have hcombines : Combines (.none Unit) .addCarry (aboutTo 0x88 0xFF 0x01 true ()) 0x01 _ :=
        ⟨rfl, hoperand, rfl⟩
      have hexact := hcombines.add_exact
      have hlt := ((aboutTo 0x88 0xFF 0x01 true ()).step (.none Unit)).1.cpu.a.toNat_lt
      apply UInt8.toNat_inj.mp
      simp only [a_aboutTo, carry_aboutTo, UInt8.reduceToNat, Bool.toNat_true] at hexact ⊢
      omega
    have hplaces : (aboutTo 0x88 0xFF 0x01 true ()).places (.none Unit) .addCarry 1 =
        [⟨0xFF, 0x01, 0x01⟩] := by
      rw [places_of_some halted_aboutTo hoperand, hresult, a_aboutTo, places]
    have hleaves : (aboutTo 0x88 0xFF 0x01 true ()).leavesCarryTo (.none Unit) .addCarry 1 := by
      simp [leavesCarryTo, hoperand]
    have hchain := hrun .addCarry 1 _ {} hleaves
    rwa [hplaces, carry_aboutTo] at hchain

end Cpm80.Machine
