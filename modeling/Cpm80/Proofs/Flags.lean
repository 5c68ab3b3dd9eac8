import Cpm80.Proofs.ControlFlow

/-!
# The carry flag

A flag is a bit of its own: setting it leaves the others as they are. From this follows which
carries a sum and a difference leave, and which instructions leave the carry alone. Together with
the carry, the byte in the accumulator is exactly what was computed.
-/
namespace Cpm80

namespace Flag

theorem or_and_distrib (f g mask : UInt8) : (f ||| g) &&& mask = f &&& mask ||| g &&& mask := by
  apply UInt8.toBitVec_inj.mp
  exact BitVec.and_or_distrib_right

theorem not_and_of_apart {f mask : UInt8} (h : f &&& mask = 0) : ~~~f &&& mask = mask := by
  have hall := or_and_distrib f (~~~f) mask
  simpa [h] using hall.symm

end Flag

namespace Processor

variable (p : Processor) {mask other : UInt8}

@[simp] theorem flag_setFlag_self (hmask : mask ≠ 0) (value : Bool) :
    (p.setFlag mask value).flag mask = value := by
  cases value with
  | true => simp [setFlag, flag, Flag.or_and_distrib, hmask]
  | false => simp [setFlag, flag, UInt8.and_assoc]

theorem flag_setFlag_of_apart (h : mask &&& other = 0) (value : Bool) :
    (p.setFlag mask value).flag other = p.flag other := by
  cases value with
  | true => simp [setFlag, flag, Flag.or_and_distrib, h]
  | false => simp [setFlag, flag, UInt8.and_assoc, Flag.not_and_of_apart h]

/-- The carry of the latest sum or the borrow of the latest difference. -/
def carry : Bool :=
  p.flag Flag.carry

/-- The carry out of the low four bits. -/
def auxCarry : Bool :=
  p.flag Flag.auxCarry

@[simp] theorem carry_setFlag_carry (value : Bool) : (p.setFlag Flag.carry value).carry = value :=
  p.flag_setFlag_self (by decide) value

@[simp] theorem carry_setFlag_auxCarry (value : Bool) :
    (p.setFlag Flag.auxCarry value).carry = p.carry :=
  p.flag_setFlag_of_apart (by decide) value

@[simp] theorem auxCarry_setFlag_auxCarry (value : Bool) :
    (p.setFlag Flag.auxCarry value).auxCarry = value :=
  p.flag_setFlag_self (by decide) value

@[simp] theorem auxCarry_setFlag_carry (value : Bool) :
    (p.setFlag Flag.carry value).auxCarry = p.auxCarry :=
  p.flag_setFlag_of_apart (by decide) value

/-- The kind of a result is told by flags that are no carries. -/
theorem flag_setResult_of_apart (v : UInt8) (hzero : Flag.zero &&& mask = 0)
    (hsign : Flag.sign &&& mask = 0) (hparity : Flag.parity &&& mask = 0) :
    (p.setResult v).flag mask = p.flag mask := by
  rw [setResult, flag_setFlag_of_apart _ hparity, flag_setFlag_of_apart _ hsign,
    flag_setFlag_of_apart _ hzero]

@[simp] theorem carry_setResult (v : UInt8) : (p.setResult v).carry = p.carry :=
  p.flag_setResult_of_apart v (by decide) (by decide) (by decide)

@[simp] theorem auxCarry_setResult (v : UInt8) : (p.setResult v).auxCarry = p.auxCarry :=
  p.flag_setResult_of_apart v (by decide) (by decide) (by decide)

@[simp] theorem a_setFlag (value : Bool) : (p.setFlag mask value).a = p.a := rfl

@[simp] theorem a_setResult (v : UInt8) : (p.setResult v).a = p.a := by
  simp only [setResult, a_setFlag]

/-! ## Sums and differences -/

variable (v : UInt8) (carryIn : Bool)

theorem a_add : (p.add v carryIn).a = UInt8.ofNat (p.a.toNat + v.toNat + carryIn.toNat) := rfl

theorem carry_add :
    (p.add v carryIn).carry = decide (255 < p.a.toNat + v.toNat + carryIn.toNat) :=
  (carry_setResult _ _).trans (carry_setFlag_carry _ _)

theorem auxCarry_add : (p.add v carryIn).auxCarry =
    decide (15 < p.a.toNat % 16 + v.toNat % 16 + carryIn.toNat) :=
  (auxCarry_setResult _ _).trans
    ((auxCarry_setFlag_carry _ _).trans (auxCarry_setFlag_auxCarry _ _))

theorem carry_compare :
    (p.compare v carryIn).carry = decide (p.a.toNat < v.toNat + carryIn.toNat) :=
  (carry_setResult _ _).trans (carry_setFlag_carry _ _)

@[simp] theorem a_compare : (p.compare v carryIn).a = p.a := by
  simp only [compare, a_setResult, a_setFlag]

/-- With the carry, a sum is exact. -/
theorem add_exact : (p.add v carryIn).a.toNat + 256 * (p.add v carryIn).carry.toNat =
    p.a.toNat + v.toNat + carryIn.toNat := by
  have ha := p.a.toNat_lt
  have hv := v.toNat_lt
  have hc := carryIn.toNat_le
  rw [a_add, carry_add, UInt8.toNat_ofNat']
  by_cases h : 255 < p.a.toNat + v.toNat + carryIn.toNat
  · simp only [h, decide_true, Bool.toNat_true]
    omega
  · simp only [h, decide_false, Bool.toNat_false]
    omega

/-- With the borrow, a difference is exact. -/
theorem sub_exact : (p.sub v carryIn).a.toNat + v.toNat + carryIn.toNat =
    p.a.toNat + 256 * (p.sub v carryIn).carry.toNat := by
  have ha := p.a.toNat_lt
  have hv := v.toNat_lt
  have hc := carryIn.toNat_le
  have hborrow : (p.sub v carryIn).carry = decide (p.a.toNat < v.toNat + carryIn.toNat) :=
    p.carry_compare v carryIn
  have hresult : (p.sub v carryIn).a = p.a - UInt8.ofNat (v.toNat + carryIn.toNat) := rfl
  rw [hborrow, hresult, UInt8.toNat_sub, UInt8.toNat_ofNat']
  by_cases h : p.a.toNat < v.toNat + carryIn.toNat
  · simp only [h, decide_true, Bool.toNat_true]
    omega
  · simp only [h, decide_false, Bool.toNat_false]
    omega

@[simp] theorem carry_incremented : (p.incremented v).2.carry = p.carry := by
  simp only [incremented, carry_setResult, carry_setFlag_auxCarry]

@[simp] theorem carry_decremented : (p.decremented v).2.carry = p.carry := by
  simp only [decremented, carry_setResult, carry_setFlag_auxCarry]

end Processor

/-! ## Instructions that leave the carry alone -/

/-- Whether an instruction may change the carry. -/
def Instruction.affectsCarry : Instruction → Bool
  | addPair _ | arithmetic _ _ | arithmeticImmediate _ => true
  | rotateLeft | rotateRight | rotateLeftThroughCarry | rotateRightThroughCarry => true
  | decimalAdjust | setCarry | complementCarry => true
  | pop .psw => true
  | _ => false

/-- Whether an instruction moves a byte or counts, as a program does to get from one byte of a
number to the next. -/
def Instruction.movesOrCounts : Instruction → Bool
  | move _ _ | moveImmediate _ | loadFrom _ | storeAt _ => true
  | incrementPair _ | decrementPair _ | increment _ | decrement _ => true
  | _ => false

theorem Instruction.affectsCarry_of_movesOrCounts {i : Instruction} (h : i.movesOrCounts = true) :
    i.affectsCarry = false := by
  cases i with
  | move | moveImmediate | loadFrom | storeAt => rfl
  | incrementPair | decrementPair | increment | decrement => rfl
  | _ => cases h

namespace Machine

variable {σ : Type} (m : Machine σ)

def carry : Bool :=
  m.cpu.carry

@[simp] theorem carry_setRegister (r : Register) (v : UInt8) :
    (m.setRegister r v).cpu.carry = m.cpu.carry := by
  cases r <;> rfl

theorem carry_execute (bus : Bus σ) {i : Instruction} (h : i.affectsCarry = false) :
    (m.execute bus i).carry = m.carry := by
  obtain ⟨p, mem, dev⟩ := m
  cases i with
  | increment r | decrement r | move target source => simp [execute, carry, onCpu]
  | moveImmediate r =>
    simp only [execute, carry, carry_setRegister]
    rfl
  | loadPair pair | incrementPair pair | decrementPair pair => cases pair <;> rfl
  | pop pair =>
    cases pair with
    | psw => cases h
    | _ => rfl
  | jumpIf c | callIf c | retIf c =>
    simp only [execute]
    split <;> rfl
  | addPair | arithmetic | arithmeticImmediate => cases h
  | rotateLeft | rotateRight | rotateLeftThroughCarry | rotateRightThroughCarry => cases h
  | decimalAdjust | setCarry | complementCarry => cases h
  | _ => rfl

theorem carry_step (bus : Bus σ) (h : m.next.affectsCarry = false) :
    (m.step bus).1.carry = m.carry := by
  cases hhalted : m.cpu.halted with
  | true => simp [step, hhalted]
  | false =>
    rw [step_running bus hhalted, carry_execute _ bus h]
    rfl

end Machine

end Cpm80
