import Cpm80.Machine
import Cpm80.Proofs.MemoryBlocks

/-!
# Where a step leads

How long an instruction is, is said twice: as a number in the table of instructions, and by the
operand bytes that its execution fetches. A step goes to the address behind as many bytes as the
table says, or else to the target of a transfer of control; a call leaves the address behind it
on the stack. All sums of addresses wrap, so the bytes of an instruction may do so too.
-/
namespace Cpm80

namespace Instruction

/-- What a conditional transfer of control depends on. -/
def condition? : Instruction → Option Condition
  | jumpIf c | callIf c | retIf c => some c
  | _ => none

@[simp] theorem size_call : call.size = 3 := rfl

@[simp] theorem size_jumpIf (c : Condition) : (jumpIf c).size = 3 := rfl

@[simp] theorem size_callIf (c : Condition) : (callIf c).size = 3 := rfl

@[simp] theorem size_retIf (c : Condition) : (retIf c).size = 1 := rfl

@[simp] theorem size_restart (n : Fin 8) : (restart n).size = 1 := rfl

end Instruction

namespace Processor

variable (p : Processor)

@[simp] theorem pc_setFlag (mask : UInt8) (value : Bool) : (p.setFlag mask value).pc = p.pc :=
  rfl

@[simp] theorem pc_setResult (v : UInt8) : (p.setResult v).pc = p.pc := by
  simp only [setResult, pc_setFlag]

@[simp] theorem pc_setPair (w : UInt16) (pair : Pair) : (p.setPair w pair).pc = p.pc := by
  cases pair <;> rfl

@[simp] theorem pc_setStackPair (w : UInt16) (pair : StackPair) :
    (p.setStackPair w pair).pc = p.pc := by
  cases pair <;> rfl

@[simp] theorem pc_setHL (w : UInt16) : (p.setHL w).pc = p.pc := rfl

@[simp] theorem pc_setDE (w : UInt16) : (p.setDE w).pc = p.pc := rfl

@[simp] theorem pc_addToHL (w : UInt16) : (p.addToHL w).pc = p.pc := by
  simp only [addToHL, pc_setHL, pc_setFlag]

@[simp] theorem pc_incremented (v : UInt8) : (p.incremented v).2.pc = p.pc := by
  simp only [incremented, pc_setResult, pc_setFlag]

@[simp] theorem pc_decremented (v : UInt8) : (p.decremented v).2.pc = p.pc := by
  simp only [decremented, pc_setResult, pc_setFlag]

@[simp] theorem pc_add (v : UInt8) (carryIn : Bool) : (p.add v carryIn).pc = p.pc := by
  simp only [add, pc_setResult, pc_setFlag]

@[simp] theorem pc_compare (v : UInt8) (borrowIn : Bool) : (p.compare v borrowIn).pc = p.pc := by
  simp only [compare, pc_setResult, pc_setFlag]

@[simp] theorem pc_logical (result : UInt8) (auxCarry : Bool) :
    (p.logical result auxCarry).pc = p.pc := by
  simp only [logical, pc_setResult, pc_setFlag]

@[simp] theorem pc_arithmetic (op : Arithmetic) (v : UInt8) :
    (p.arithmetic op v).pc = p.pc := by
  cases op <;> simp [arithmetic, sub]

@[simp] theorem pc_decimalAdjust : p.decimalAdjust.pc = p.pc := by
  simp only [decimalAdjust]
  split <;> simp

@[simp] theorem pc_rotateLeft : p.rotateLeft.pc = p.pc := rfl

@[simp] theorem pc_rotateRight : p.rotateRight.pc = p.pc := rfl

@[simp] theorem pc_rotateLeftThroughCarry : p.rotateLeftThroughCarry.pc = p.pc := rfl

@[simp] theorem pc_rotateRightThroughCarry : p.rotateRightThroughCarry.pc = p.pc := rfl

theorem holds_setPC (a : UInt16) (c : Condition) :
    { p with pc := a }.holds c = p.holds c := by
  cases c <;> rfl

end Processor

theorem Memory.readWord_writeWord (m : Memory) (a w : UInt16) :
    (m.writeWord a w).readWord a = w := by
  rw [readWord, writeWord, read_write_self, read_write_of_ne _ _ (ne_add_one a), read_write_self,
    word_highByte_lowByte]

namespace Machine

variable {σ : Type} (m : Machine σ)

@[simp] theorem pc_setRegister (r : Register) (v : UInt8) :
    (m.setRegister r v).cpu.pc = m.cpu.pc := by
  cases r <;> rfl

/-- The byte behind the opcode. -/
def operandByte : UInt8 :=
  m.memory.read (m.cpu.pc + 1)

/-- The word behind the opcode. -/
def operandWord : UInt16 :=
  m.memory.readWord (m.cpu.pc + 1)

/-- The address behind the instruction at the program counter. -/
def following : UInt16 :=
  m.cpu.pc + UInt16.ofNat m.next.size

/-- Where the instruction at the program counter transfers control to, if it does. -/
def destination? : Option UInt16 :=
  match m.next with
  | .jump | .call => some m.operandWord
  | .jumpIf c | .callIf c => if m.cpu.holds c then some m.operandWord else none
  | .jumpToHL => some m.cpu.hl
  | .restart n => some (UInt16.ofNat (8 * n.val))
  | .ret => some (m.memory.readWord m.cpu.sp)
  | .retIf c => if m.cpu.holds c then some (m.memory.readWord m.cpu.sp) else none
  | _ => none

/-- Whether the instruction at the program counter calls a subroutine. -/
def isCalling : Bool :=
  match m.next with
  | .call | .restart _ => true
  | .callIf c => m.cpu.holds c
  | _ => false

variable {m : Machine σ}

theorem step_running (bus : Bus σ) (h : m.cpu.halted = false) :
    m.step bus = (m.fetch.2.execute bus m.next, m.next.cycles) := by
  simp [step, h]

theorem pc_step (bus : Bus σ) (h : m.cpu.halted = false) :
    (m.step bus).1.cpu.pc = m.destination?.getD m.following := by
  rw [step_running bus h, following, destination?, operandWord]
  obtain ⟨p, mem, dev⟩ := m
  generalize next ⟨p, mem, dev⟩ = i
  have hbyte : p.pc + 1 + 1 = p.pc + 2 := UInt16.add_assoc p.pc 1 1
  have hword : p.pc + 1 + 2 = p.pc + 3 := UInt16.add_assoc p.pc 1 2
  cases i with
  | jump | jumpToHL | call | restart n | ret => rfl
  | jumpIf c =>
    cases hc : p.holds c with
    | true => simp [execute, fetch, fetchWord, Processor.holds_setPC, hc, jumpTo, onCpu]
    | false => simp [execute, fetch, fetchWord, Processor.holds_setPC, hc, hword]
  | callIf c =>
    cases hc : p.holds c with
    | true => simp [execute, fetch, fetchWord, Processor.holds_setPC, hc, callTo, jumpTo, onCpu]
    | false => simp [execute, fetch, fetchWord, Processor.holds_setPC, hc, hword]
  | retIf c =>
    cases hc : p.holds c with
    | true => simp [execute, fetch, Processor.holds_setPC, hc, returnFrom, popWord, jumpTo, onCpu]
    | false => simp [execute, fetch, Processor.holds_setPC, hc]
  | _ =>
    -- what is left goes on behind the operand bytes that it fetches
    simp [execute, fetch, fetchWord, onCpu, pushWord, popWord, hbyte, hword, Instruction.size,
      Instruction.operands, OperandForm.totalWidth, OperandForm.width]

/-- A call leaves the address behind it on the stack. -/
theorem step_of_isCalling (bus : Bus σ) (h : m.cpu.halted = false) (hcall : m.isCalling = true) :
    (m.step bus).1.cpu.sp = m.cpu.sp - 2 ∧
      (m.step bus).1.memory = m.memory.writeWord (m.cpu.sp - 2) m.following := by
  rw [step_running bus h, following]
  rw [isCalling] at hcall
  obtain ⟨p, mem, dev⟩ := m
  generalize next ⟨p, mem, dev⟩ = i at hcall ⊢
  have hword : p.pc + 1 + 2 = p.pc + 3 := UInt16.add_assoc p.pc 1 2
  cases i with
  | call =>
    simp [execute, fetch, fetchWord, callTo, pushWord, jumpTo, onCpu, hword]
  | callIf c =>
    have hc : p.holds c = true := hcall
    simp [execute, fetch, fetchWord, Processor.holds_setPC, hc, callTo, pushWord, jumpTo, onCpu,
      hword]
  | restart n =>
    simp [execute, fetch, callTo, pushWord, jumpTo, onCpu]
  | _ => cases hcall

/-- A conditional transfer that is not taken does nothing but go on. -/
theorem step_of_not_holds (bus : Bus σ) (h : m.cpu.halted = false) {c : Condition}
    (hnext : m.next.condition? = some c) (hc : m.cpu.holds c = false) :
    (m.step bus).1 = { m with cpu := { m.cpu with pc := m.following } } := by
  rw [step_running bus h, following]
  obtain ⟨p, mem, dev⟩ := m
  generalize next ⟨p, mem, dev⟩ = i at hnext ⊢
  have hword : p.pc + 1 + 2 = p.pc + 3 := UInt16.add_assoc p.pc 1 2
  have hfalse : p.holds c = false := hc
  cases i with
  | jumpIf d =>
    cases hnext
    simp [execute, fetch, fetchWord, Processor.holds_setPC, hfalse, hword]
  | callIf d =>
    cases hnext
    simp [execute, fetch, fetchWord, Processor.holds_setPC, hfalse, hword]
  | retIf d =>
    cases hnext
    simp [execute, fetch, Processor.holds_setPC, hfalse]
  | _ => cases hnext

/-- A step costs what the table says and goes on behind as many bytes as the table says, or to
the target of a transfer of control; a call leaves its return address on the stack, and a
condition that does not hold leaves stack and memory alone. -/
theorem step_follows_table (bus : Bus σ) (h : m.cpu.halted = false) :
    (m.step bus).2 = m.next.cycles ∧
      (m.step bus).1.cpu.pc = m.destination?.getD m.following ∧
      (m.isCalling = true → (m.step bus).1.cpu.sp = m.cpu.sp - 2 ∧
        (m.step bus).1.memory.readWord (m.cpu.sp - 2) = m.following) ∧
      (∀ c, m.next.condition? = some c → m.cpu.holds c = false →
        (m.step bus).1.cpu.sp = m.cpu.sp ∧ (m.step bus).1.memory = m.memory ∧
          (m.step bus).1.cpu.pc = m.following) := by
  refine ⟨by rw [step_running bus h], pc_step bus h, ?_, ?_⟩
  · intro hcall
    obtain ⟨hsp, hmemory⟩ := step_of_isCalling bus h hcall
    exact ⟨hsp, by rw [hmemory, Memory.readWord_writeWord]⟩
  · intro c hnext hc
    rw [step_of_not_holds bus h hnext hc]
    exact ⟨rfl, rfl, rfl⟩

/-- A machine at a call whose bytes go round the top of memory. -/
def callAtTop : Machine Unit where
  cpu := { pc := 0xFFFE, sp := 0x0001 }
  memory := .ofFn fun a =>
    if a = 0xFFFE then 0xCD else if a = 0xFFFF then 0x34 else if a = 0x0000 then 0x12 else 0
  devices := ()

theorem step_follows_table_callAtTop :
    callAtTop.cpu.halted = false ∧ (callAtTop.step (.none Unit)).2 = 17 ∧
      (callAtTop.step (.none Unit)).1.cpu.pc = 0x1234 ∧
      (callAtTop.step (.none Unit)).1.memory.readWord 0xFFFF = 0x0001 := by
  have hnext : callAtTop.next = .call := by
    simp only [next, callAtTop, Memory.read_ofFn]
    rfl
  have hcalling : callAtTop.isCalling = true := by
    rw [isCalling, hnext]
  have hdestination : callAtTop.destination? = some 0x1234 := by
    rw [destination?, hnext, operandWord]
    simp only [callAtTop, Memory.readWord, Memory.read_ofFn]
    rfl
  have hfollowing : callAtTop.following = 0x0001 := by
    rw [following, hnext]
    rfl
  obtain ⟨hcost, hpc, hcall, -⟩ := step_follows_table (.none Unit) (m := callAtTop) rfl
  rw [hnext] at hcost
  rw [hdestination] at hpc
  have hpushed := (hcall hcalling).2
  rw [hfollowing] at hpushed
  exact ⟨rfl, hcost, hpc, hpushed⟩

end Machine

end Cpm80
