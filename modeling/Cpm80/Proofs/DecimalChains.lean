import Cpm80.Proofs.CarryChains
import Cpm80.Proofs.InterruptGating
import Cpm80.Proofs.MemoryEffects

/-!
# Decimal numbers of many bytes

A byte can hold two decimal digits. The sum of two such bytes is computed in binary and then
adjusted: where a digit has overflown, six is added to skip the codes that are no digits. What has
overflown can be told from the sum and its two carries. So a chain of adjusted sums is exact in
the decimal system.
-/
namespace Cpm80

/-- A byte that holds two decimal digits. -/
def IsDecimal (v : UInt8) : Prop :=
  v.toNat / 16 ≤ 9 ∧ v.toNat % 16 ≤ 9

instance (v : UInt8) : Decidable (IsDecimal v) :=
  inferInstanceAs (Decidable (_ ∧ _))

/-- The number that two decimal digits make up. -/
def decimalDigits (v : UInt8) : Nat :=
  10 * (v.toNat / 16) + v.toNat % 16

namespace Processor

variable (p : Processor)

/-- Whether the high digit is adjusted: it has overflown, or does so when the low digit is
carried into it. -/
def adjustsHigh : Prop :=
  p.carry = true ∨ 9 < p.a.toNat / 16 ∨ 9 ≤ p.a.toNat / 16 ∧ 9 < p.a.toNat % 16

/-- Whether the low digit is adjusted. -/
def adjustsLow : Prop :=
  9 < p.a.toNat % 16 ∨ p.auxCarry = true

instance : Decidable p.adjustsHigh := inferInstanceAs (Decidable (_ ∨ _))

instance : Decidable p.adjustsLow := inferInstanceAs (Decidable (_ ∨ _))

/-- What is added to adjust a sum. -/
def correction : Nat :=
  (if p.adjustsLow then 0x06 else 0) + (if p.adjustsHigh then 0x60 else 0)

theorem toNat_lowDigit : (p.a &&& 0x0F).toNat = p.a.toNat % 16 := by
  rw [UInt8.toNat_and]
  exact Nat.and_two_pow_sub_one_eq_mod p.a.toNat 4

theorem toNat_highDigit : (p.a >>> 4).toNat = p.a.toNat / 16 := by
  rw [UInt8.toNat_shiftRight]
  exact Nat.shiftRight_eq_div_pow p.a.toNat 4

theorem lowDigit_gt : p.a &&& 0x0F > 9 ↔ 9 < p.a.toNat % 16 := by
  rw [gt_iff_lt, UInt8.lt_iff_toNat_lt, toNat_lowDigit]
  rfl

theorem highDigit_gt : p.a >>> 4 > 9 ↔ 9 < p.a.toNat / 16 := by
  rw [gt_iff_lt, UInt8.lt_iff_toNat_lt, toNat_highDigit]
  rfl

theorem highDigit_ge : p.a >>> 4 ≥ 9 ↔ 9 ≤ p.a.toNat / 16 := by
  rw [ge_iff_le, UInt8.le_iff_toNat_le, toNat_highDigit]
  rfl

theorem decimalAdjust_eq : p.decimalAdjust =
    let sum := (p.add (UInt8.ofNat p.correction) false).setFlag Flag.auxCarry
      (9 < p.a.toNat % 16)
    if p.adjustsHigh then sum.setFlag Flag.carry true else sum := by
  have hhigh : (p.flag Flag.carry || decide (p.a >>> 4 > 9) ||
      decide (p.a >>> 4 ≥ 9) && decide (p.a &&& 0x0F > 9)) = decide p.adjustsHigh := by
    simp only [lowDigit_gt, highDigit_gt, highDigit_ge, adjustsHigh, carry]
    grind
  have hlow : (decide (p.a &&& 0x0F > 9) || p.flag Flag.auxCarry) = decide p.adjustsLow := by
    simp only [lowDigit_gt, adjustsLow, auxCarry]
    grind
  have hcorrection : (if p.adjustsLow then (0x06 : UInt8) else 0) |||
      (if p.adjustsHigh then 0x60 else 0) = UInt8.ofNat p.correction := by
    rw [correction]
    split <;> split <;> rfl
  simp only [decimalAdjust, hhigh, hlow, decide_eq_true_eq, hcorrection]
  simp only [lowDigit_gt]

theorem correction_lt : p.correction < 256 := by
  rw [correction]
  split <;> split <;> decide

theorem toNat_correction : (UInt8.ofNat p.correction).toNat = p.correction := by
  rw [UInt8.toNat_ofNat']
  exact Nat.mod_eq_of_lt p.correction_lt

theorem a_decimalAdjust : p.decimalAdjust.a.toNat = (p.a.toNat + p.correction) % 256 := by
  have hsum : p.decimalAdjust.a = (p.add (UInt8.ofNat p.correction) false).a := by
    rw [decimalAdjust_eq]
    dsimp only
    split <;> rfl
  rw [hsum, a_add, UInt8.toNat_ofNat', toNat_correction]
  rfl

theorem carry_decimalAdjust : p.decimalAdjust.carry =
    (decide p.adjustsHigh || decide (255 < p.a.toNat + p.correction)) := by
  rw [decimalAdjust_eq]
  by_cases h : p.adjustsHigh
  · simp [h]
  · simp [h, carry_add, Nat.mod_eq_of_lt p.correction_lt]

/-! ## An adjusted sum -/

section AdjustedSum

variable {p} {q : Processor} {v : UInt8} {carryIn : Bool}
variable (hp : IsDecimal p.a) (hv : IsDecimal v)
variable (ha : q.a = (p.add v carryIn).a) (hflags : q.flags = (p.add v carryIn).flags)
include hp hv ha hflags

/-- The sum of two digits has overflown if it is above nine: then it is no digit or has carried. -/
theorem adjustsLow_iff : q.adjustsLow ↔ 9 < p.a.toNat % 16 + v.toNat % 16 + carryIn.toNat := by
  have hcarried : q.auxCarry = decide (15 < p.a.toNat % 16 + v.toNat % 16 + carryIn.toNat) := by
    rw [← auxCarry_add, auxCarry, auxCarry, flag, flag, hflags]
  have hc := carryIn.toNat_le
  rw [adjustsLow, hcarried, decide_eq_true_iff, ha, a_add, UInt8.toNat_ofNat']
  unfold IsDecimal at hp hv
  omega

/-- The sum of the high digits has overflown if the whole sum is above 99. -/
theorem adjustsHigh_iff :
    q.adjustsHigh ↔ 99 < decimalDigits p.a + decimalDigits v + carryIn.toNat := by
  have hcarried : q.carry = decide (255 < p.a.toNat + v.toNat + carryIn.toNat) := by
    rw [← carry_add, carry, carry, flag, flag, hflags]
  have hc := carryIn.toNat_le
  rw [adjustsHigh, hcarried, decide_eq_true_iff, ha, a_add, UInt8.toNat_ofNat']
  unfold IsDecimal at hp hv
  unfold decimalDigits
  omega

theorem correction_eq :
    q.correction = (if 9 < p.a.toNat % 16 + v.toNat % 16 + carryIn.toNat then 0x06 else 0) +
      (if 99 < decimalDigits p.a + decimalDigits v + carryIn.toNat then 0x60 else 0) := by
  simp only [correction, adjustsLow_iff hp hv ha hflags, adjustsHigh_iff hp hv ha hflags]

/-- The digits of an adjusted sum are the last two of the decimal sum. -/
theorem toNat_a_decimalAdjust :
    q.decimalAdjust.a.toNat =
      16 * ((decimalDigits p.a + decimalDigits v + carryIn.toNat) / 10 % 10) +
        (decimalDigits p.a + decimalDigits v + carryIn.toNat) % 10 := by
  have hc := carryIn.toNat_le
  rw [a_decimalAdjust, correction_eq hp hv ha hflags, ha, a_add, UInt8.toNat_ofNat']
  obtain ⟨hp_high, hp_low⟩ := hp
  obtain ⟨hv_high, hv_low⟩ := hv
  have hbytes : p.a.toNat + v.toNat + carryIn.toNat =
      16 * (p.a.toNat / 16 + v.toNat / 16) + (p.a.toNat % 16 + v.toNat % 16 + carryIn.toNat) := by
    omega
  have hdigits : decimalDigits p.a + decimalDigits v + carryIn.toNat =
      10 * (p.a.toNat / 16 + v.toNat / 16) + (p.a.toNat % 16 + v.toNat % 16 + carryIn.toNat) := by
    unfold decimalDigits
    omega
  have hhigh : p.a.toNat / 16 + v.toNat / 16 ≤ 18 := by omega
  have hlow : p.a.toNat % 16 + v.toNat % 16 + carryIn.toNat ≤ 19 := by omega
  rw [hbytes, hdigits]
  generalize p.a.toNat / 16 + v.toNat / 16 = high at hhigh ⊢
  generalize p.a.toNat % 16 + v.toNat % 16 + carryIn.toNat = low at hlow ⊢
  split <;> split <;> omega

/-- An adjusted sum leaves the carry of the decimal sum. -/
theorem carry_decimalAdjust_iff : q.decimalAdjust.carry = true ↔
    99 < decimalDigits p.a + decimalDigits v + carryIn.toNat := by
  have hc := carryIn.toNat_le
  rw [carry_decimalAdjust, Bool.or_eq_true, decide_eq_true_iff, decide_eq_true_iff,
    adjustsHigh_iff hp hv ha hflags, or_iff_left_iff_imp, correction_eq hp hv ha hflags, ha, a_add,
    UInt8.toNat_ofNat']
  -- without an adjustment of the high digit, the byte is at most 0x99
  unfold IsDecimal at hp hv
  unfold decimalDigits
  split <;> split <;> omega

/-- With the carry, an adjusted sum is exact, and its digits are decimal. -/
theorem decimalAdjust_exact :
    IsDecimal q.decimalAdjust.a ∧
      decimalDigits q.decimalAdjust.a + 100 * q.decimalAdjust.carry.toNat =
        decimalDigits p.a + decimalDigits v + carryIn.toNat := by
  have hdigits := toNat_a_decimalAdjust hp hv ha hflags
  have hcarry := carry_decimalAdjust_iff hp hv ha hflags
  have hc := carryIn.toNat_le
  have hsum : decimalDigits p.a + decimalDigits v + carryIn.toNat < 200 := by
    unfold IsDecimal at hp hv
    unfold decimalDigits
    omega
  generalize decimalDigits p.a + decimalDigits v + carryIn.toNat = sum at hdigits hcarry hsum ⊢
  refine ⟨⟨by omega, by omega⟩, ?_⟩
  rw [decimalDigits]
  cases hleft : q.decimalAdjust.carry with
  | false =>
    rw [hleft] at hcarry
    simp only [Bool.toNat_false, Bool.false_eq_true, false_iff] at hcarry ⊢
    omega
  | true =>
    rw [hleft] at hcarry
    simp only [Bool.toNat_true, true_iff] at hcarry ⊢
    omega

end AdjustedSum

end Processor

namespace Machine

variable {σ : Type} {bus : Bus σ} {op : Arithmetic} {m n : Machine σ} {v : UInt8}
variable {as bs rs : List UInt8} {place : Machine σ → UInt8 → Machine σ → Prop}
variable {carry carry' : Bool}

/-! ## Chains of adjusted sums -/

/-- A place of a decimal chain: after an addition with carry the sum is adjusted. What is executed
between the two leaves the accumulator and the flags alone. -/
def AddsDecimally (bus : Bus σ) (m : Machine σ) (v : UInt8) (n : Machine σ) : Prop :=
  ∃ added adjusting : Machine σ, Combines bus .addCarry m v added ∧
    adjusting.cpu.a = added.cpu.a ∧ adjusting.cpu.flags = added.cpu.flags ∧
    adjusting.cpu.halted = false ∧ adjusting.next = .decimalAdjust ∧
    n = (adjusting.step bus).1

/-- The number that bytes of two decimal digits make up, the lowest first. -/
def decimal : List UInt8 → Nat :=
  number 100 decimalDigits

theorem cpu_step_of_decimalAdjust (h : m.cpu.halted = false) (hnext : m.next = .decimalAdjust) :
    (m.step bus).1.cpu = { m.cpu with pc := m.cpu.pc + 1 }.decimalAdjust := by
  rw [step_running bus h, hnext]
  rfl

/-- In its place an addition of decimal digits is exact. -/
theorem AddsDecimally.exact (h : AddsDecimally bus m v n) (hm : IsDecimal m.cpu.a)
    (hv : IsDecimal v) :
    IsDecimal n.cpu.a ∧ decimalDigits n.cpu.a + 100 * n.carry.toNat =
      decimalDigits m.cpu.a + decimalDigits v + m.carry.toNat := by
  obtain ⟨added, adjusting, ⟨hrunning, hoperand, rfl⟩, ha, hflags, hadjusting, hnext, rfl⟩ := h
  let p : Processor := { m.cpu with pc := m.following }
  have hadded : (m.step bus).1.cpu = p.add v m.carry := cpu_step_of_operandOf? hrunning hoperand
  rw [hadded] at ha hflags
  rw [carry, cpu_step_of_decimalAdjust hadjusting hnext]
  exact Processor.decimalAdjust_exact (p := p) hm hv ha hflags

namespace Chain

/-- What holds of all bytes that are combined may be used in every place. -/
theorem restrict {P : UInt8 → Prop} (h : Chain place carry as bs rs carry')
    (has : ∀ a ∈ as, P a) (hbs : ∀ v ∈ bs, P v) :
    Chain (fun m v n => place m v n ∧ P m.cpu.a ∧ P v) carry as bs rs carry' := by
  induction h with
  | nil carry => exact .nil carry
  | cons head tail ih =>
    rw [List.forall_mem_cons] at has hbs
    exact .cons ⟨head, has.1, hbs.1⟩ (ih has.2 hbs.2)

theorem forall_results {P : UInt8 → Prop} (hplace : ∀ m v n, place m v n → P n.cpu.a)
    (h : Chain place carry as bs rs carry') : ∀ r ∈ rs, P r := by
  induction h with
  | nil => simp
  | cons head tail ih => exact List.forall_mem_cons.mpr ⟨hplace _ _ _ head, ih⟩

theorem decimal_exact (h : Chain (AddsDecimally bus) carry as bs rs carry')
    (has : ∀ a ∈ as, IsDecimal a) (hbs : ∀ v ∈ bs, IsDecimal v) :
    (∀ r ∈ rs, IsDecimal r) ∧
      decimal rs + carry'.toNat * 100 ^ as.length = decimal as + decimal bs + carry.toNat := by
  have hrestricted := h.restrict has hbs
  refine ⟨hrestricted.forall_results ?_, hrestricted.exact_of_sums 100 decimalDigits ?_⟩
  · exact fun m v n ⟨hplace, hm, hv⟩ => (hplace.exact hm hv).1
  · exact fun m v n ⟨hplace, hm, hv⟩ => (hplace.exact hm hv).2

end Chain

theorem Combines.halted_eq_false (h : Combines bus op m v n) : n.cpu.halted = false := by
  obtain ⟨hrunning, hoperand, rfl⟩ := h
  rw [cpu_step_of_operandOf? hrunning hoperand]
  exact (congrArg Switches.halted (Processor.switches_arithmetic _ op v)).trans hrunning

/-! ## Every two decimal numbers have a chain -/

/-- A machine that is about to add a byte with carry and then to adjust the sum. -/
def aboutToAdd (a v : UInt8) (carry : Bool) (devices : σ) : Machine σ :=
  { aboutTo 0x88 a v carry devices with
    memory := .ofFn fun address => if address = 0 then 0x88 else 0x27 }

variable {a : UInt8} {devices : σ}

theorem next_aboutToAdd : (aboutToAdd a v carry devices).next = .arithmetic .addCarry .b := by
  have hpc : (aboutTo 0x88 a v carry devices).cpu.pc = 0 := rfl
  simp only [next, aboutToAdd, Memory.read_ofFn, hpc, if_true]
  rfl

theorem memory_step_aboutToAdd :
    ((aboutToAdd a v carry devices).step bus).1.memory =
      (aboutToAdd a v carry devices).memory := by
  have hstores : (aboutToAdd a v carry devices).stores = [] := by rw [stores, next_aboutToAdd]
  rw [memory_step bus rfl, hstores]
  rfl

theorem next_step_aboutToAdd :
    ((aboutToAdd a v carry devices).step bus).1.next = .decimalAdjust := by
  have hpc : ((aboutToAdd a v carry devices).step bus).1.cpu.pc = 1 := by
    rw [pc_step bus rfl, destination?, following, next_aboutToAdd]
    rfl
  rw [next, memory_step_aboutToAdd, hpc]
  simp only [aboutToAdd, Memory.read_ofFn]
  rfl

theorem addsDecimally_aboutToAdd : AddsDecimally bus (aboutToAdd a v carry devices) v
    (((aboutToAdd a v carry devices).step bus).1.step bus).1 := by
  have hoperand : (aboutToAdd a v carry devices).operandOf? .addCarry = some v := by
    rw [operandOf?, next_aboutToAdd]
    rfl
  have hcombines : Combines bus .addCarry (aboutToAdd a v carry devices) v _ :=
    ⟨rfl, hoperand, rfl⟩
  exact ⟨_, _, hcombines, rfl, rfl, hcombines.halted_eq_false, next_step_aboutToAdd, rfl⟩

theorem exists_addsDecimally (bus : Bus σ) (devices : σ) (a v : UInt8) (carry : Bool) :
    ∃ m n, m.cpu.a = a ∧ m.carry = carry ∧ AddsDecimally bus m v n := by
  have ha : (aboutToAdd a v carry devices).cpu.a = a := rfl
  have hcarry : (aboutToAdd a v carry devices).carry = carry :=
    Processor.carry_setFlag_carry _ carry
  exact ⟨aboutToAdd a v carry devices, _, ha, hcarry, addsDecimally_aboutToAdd⟩

/-- Sums of decimal numbers of many bytes are exact if they are computed byte by byte through the
carry and each sum is adjusted, and every two decimal numbers of the same length can be so added.
No place depends on the other flags that it finds. -/
theorem decimal_chains_exact (bus : Bus σ) (as bs : List UInt8) (carry : Bool)
    (has : ∀ a ∈ as, IsDecimal a) (hbs : ∀ v ∈ bs, IsDecimal v) :
    (∀ rs carry', Chain (AddsDecimally bus) carry as bs rs carry' →
      rs.length = as.length ∧ (∀ r ∈ rs, IsDecimal r) ∧
        decimal rs + carry'.toNat * 100 ^ as.length = decimal as + decimal bs + carry.toNat) ∧
    (as.length = bs.length → ∀ _ : σ,
      ∃ rs carry', Chain (AddsDecimally bus) carry as bs rs carry') :=
  ⟨fun _ _ h => ⟨h.lengths.2, h.decimal_exact has hbs⟩,
    fun hlength devices => Chain.exists_of_places (exists_addsDecimally bus devices) hlength⟩

/-- The digits 9999 and 0001, with a carry. -/
theorem decimal_chains_exact_overflow :
    ∃ (rs : List UInt8) (carry' : Bool), rs.length = 2 ∧ (∀ r ∈ rs, IsDecimal r) ∧
      decimal rs + carry'.toNat * 100 ^ 2 = 9999 + 1 + 1 := by
  obtain ⟨hexact, hexists⟩ := decimal_chains_exact (.none Unit) [0x99, 0x99] [0x01, 0x00] true
    (by simp [IsDecimal]) (by simp [IsDecimal])
  obtain ⟨rs, carry', hchain⟩ := hexists rfl ()
  obtain ⟨hlength, hdecimal, hsum⟩ := hexact rs carry' hchain
  exact ⟨rs, carry', hlength, hdecimal, by simpa [decimal, decimalDigits] using hsum⟩

end Machine

end Cpm80
