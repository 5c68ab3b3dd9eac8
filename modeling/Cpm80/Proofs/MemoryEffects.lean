import Cpm80.Proofs.ControlFlow

/-!
# What a step writes

A step writes one byte, one word or nothing at all. Which cells it writes and what it puts there
can be told from the machine before the step: the operands, the registers and the flags are all
read before anything is written, also where the instruction, its operands and the stack overlap
or go round the top of memory. No other cell changes.
-/
namespace Cpm80

namespace Memory

/-- Writes cells one after another. -/
def writeCells (m : Memory) (cells : List (UInt16 × UInt8)) : Memory :=
  cells.foldl (fun m cell => m.write cell.1 cell.2) m

variable {cells : List (UInt16 × UInt8)} {a : UInt16} {cell : UInt16 × UInt8}

theorem read_writeCells_of_ne (m : Memory) (h : ∀ cell ∈ cells, cell.1 ≠ a) :
    (m.writeCells cells).read a = m.read a := by
  induction cells generalizing m with
  | nil => rfl
  | cons first rest ih =>
    have hrest : ∀ cell ∈ rest, cell.1 ≠ a :=
      fun cell hcell => h cell (List.mem_cons_of_mem _ hcell)
    have hfirst : a ≠ first.1 := (h first List.mem_cons_self).symm
    calc ((m.write first.1 first.2).writeCells rest).read a
        = (m.write first.1 first.2).read a := ih _ hrest
      _ = m.read a := read_write_of_ne m first.2 hfirst

/-- A cell that is written only once has what was written to it. -/
theorem read_writeCells_of_mem (m : Memory) (hnodup : (cells.map Prod.fst).Nodup)
    (hcell : cell ∈ cells) : (m.writeCells cells).read cell.1 = cell.2 := by
  induction cells generalizing m with
  | nil => cases hcell
  | cons first rest ih =>
    obtain ⟨hnew, hrest⟩ := List.nodup_cons.mp hnodup
    rcases List.mem_cons.mp hcell with rfl | hcell
    · have hlater : ∀ other ∈ rest, other.1 ≠ cell.1 := by
        intro other hother heq
        exact hnew (heq ▸ List.mem_map_of_mem hother)
      calc ((m.write cell.1 cell.2).writeCells rest).read cell.1
          = (m.write cell.1 cell.2).read cell.1 := read_writeCells_of_ne _ hlater
        _ = cell.2 := read_write_self m cell.1 cell.2
    · exact ih _ hrest hcell

end Memory

namespace Instruction

/-- Whether an instruction writes to memory, if a condition does not keep it from that. -/
def isStoring : Instruction → Bool
  | storeAt _ | storeDirect | storePairDirect => true
  | move .m _ | moveImmediate .m | increment .m | decrement .m => true
  | push _ | call | callIf _ | restart _ | exchangeStackTop => true
  | _ => false

/-- The opcodes of the instructions that write to memory. -/
def storing : List (UInt8 × Instruction) :=
  [(0x02, storeAt .bc), (0x12, storeAt .de), (0x22, storePairDirect), (0x32, storeDirect),
    (0x34, increment .m), (0x35, decrement .m), (0x36, moveImmediate .m),
    (0x70, move .m .b), (0x71, move .m .c), (0x72, move .m .d), (0x73, move .m .e),
    (0x74, move .m .h), (0x75, move .m .l), (0x77, move .m .a),
    (0xC5, push .bc), (0xD5, push .de), (0xE5, push .hl), (0xF5, push .psw),
    (0xC4, callIf .notZero), (0xCC, callIf .zero), (0xD4, callIf .noCarry),
    (0xDC, callIf .carry), (0xE4, callIf .parityOdd), (0xEC, callIf .parityEven),
    (0xF4, callIf .plus), (0xFC, callIf .minus), (0xCD, call), (0xE3, exchangeStackTop)] ++
  (List.finRange 8).map fun n => (0xC7 + 8 * UInt8.ofNat n.val, restart n)

theorem ofOpcode_of_mem_storing : ∀ entry ∈ storing, ofOpcode entry.1 = entry.2 := by
  decide

theorem mem_storing_of_isStoring {op : UInt8} (h : (ofOpcode op).isStoring = true) :
    (op, ofOpcode op) ∈ storing := by
  have hall : ∀ op ∈ opcodes, (ofOpcode op).isStoring = true → (op, ofOpcode op) ∈ storing := by
    decide +kernel
  exact hall op (mem_opcodes op) h

end Instruction

namespace Processor

variable (p : Processor)

@[simp] theorem hl_setFlag (mask : UInt8) (value : Bool) : (p.setFlag mask value).hl = p.hl := rfl

@[simp] theorem hl_setResult (v : UInt8) : (p.setResult v).hl = p.hl := by
  simp only [setResult, hl_setFlag]

@[simp] theorem hl_incremented (v : UInt8) : (p.incremented v).2.hl = p.hl := by
  simp only [incremented, hl_setResult, hl_setFlag]

@[simp] theorem hl_decremented (v : UInt8) : (p.decremented v).2.hl = p.hl := by
  simp only [decremented, hl_setResult, hl_setFlag]

@[simp] theorem hl_setPC (a : UInt16) : { p with pc := a }.hl = p.hl := rfl

end Processor

namespace Machine

variable {σ : Type} (m : Machine σ)

/-- A word at an address and the address after it, the low byte first. -/
def wordCells (a w : UInt16) : List (UInt16 × UInt8) :=
  [(a, lowByte w), (a + 1, highByte w)]

/-- A word below the stack pointer, the high byte on top. -/
def pushCells (w : UInt16) : List (UInt16 × UInt8) :=
  [(m.cpu.sp - 2, lowByte w), (m.cpu.sp - 1, highByte w)]

/-- The cells that the instruction at the program counter writes, each with its new value. -/
def stores : List (UInt16 × UInt8) :=
  match m.next with
  | .storeAt pointer => [(m.cpu.pointer pointer, m.cpu.a)]
  | .move .m source => [(m.cpu.hl, m.getRegister source)]
  | .moveImmediate .m => [(m.cpu.hl, m.operandByte)]
  | .increment .m => [(m.cpu.hl, m.memory.read m.cpu.hl + 1)]
  | .decrement .m => [(m.cpu.hl, m.memory.read m.cpu.hl - 1)]
  | .storeDirect => [(m.operandWord, m.cpu.a)]
  | .storePairDirect => wordCells m.operandWord m.cpu.hl
  | .push pair => m.pushCells (m.cpu.stackPair pair)
  | .call | .restart _ => m.pushCells m.following
  | .callIf c => if m.cpu.holds c then m.pushCells m.following else []
  | .exchangeStackTop => wordCells m.cpu.sp m.cpu.hl
  | _ => []

variable {m}

theorem pushCells_eq (w : UInt16) : m.pushCells w = wordCells (m.cpu.sp - 2) w := by
  have hsp : m.cpu.sp - 2 + 1 = m.cpu.sp - 1 := by grind
  rw [wordCells, hsp, pushCells]

theorem writeCells_wordCells (memory : Memory) (a w : UInt16) :
    memory.writeCells (wordCells a w) = memory.writeWord a w := rfl

/-- A step writes a byte, a word or nothing. -/
theorem stores_cases (m : Machine σ) :
    m.stores = [] ∨ (∃ a v, m.stores = [(a, v)]) ∨ ∃ a w, m.stores = wordCells a w := by
  unfold stores
  split
  case h_1 | h_2 | h_3 | h_4 | h_5 | h_6 => exact .inr (.inl ⟨_, _, rfl⟩)
  case h_7 | h_12 => exact .inr (.inr ⟨_, _, rfl⟩)
  case h_8 | h_9 | h_10 => exact .inr (.inr ⟨_, _, pushCells_eq _⟩)
  case h_11 =>
    split
    · exact .inr (.inr ⟨_, _, pushCells_eq _⟩)
    · exact .inl rfl
  case h_13 => exact .inl rfl

theorem length_stores_le (m : Machine σ) : m.stores.length ≤ 2 := by
  obtain h | ⟨a, v, h⟩ | ⟨a, w, h⟩ := stores_cases m
  · simp [h]
  · simp [h]
  · simp [h, wordCells]

theorem nodup_stores (m : Machine σ) : (m.stores.map Prod.fst).Nodup := by
  obtain h | ⟨a, v, h⟩ | ⟨a, w, h⟩ := stores_cases m
  · simp [h]
  · simp [h]
  · simp [h, wordCells]

theorem isStoring_of_stores_ne_nil (h : m.stores ≠ []) : m.next.isStoring = true := by
  unfold stores at h
  split at h
  case h_13 => exact absurd rfl h
  all_goals
    rename_i hnext
    rw [hnext]
    rfl

/-- Only an instruction that is listed with its opcode writes to memory. -/
theorem stores_eq_nil (h : m.memory.read m.cpu.pc ∉ Instruction.storing.map Prod.fst) :
    m.stores = [] := by
  apply Decidable.byContradiction
  intro hne
  have hstoring := Instruction.mem_storing_of_isStoring (isStoring_of_stores_ne_nil hne)
  exact h (List.mem_map_of_mem hstoring)

theorem memory_step (bus : Bus σ) (h : m.cpu.halted = false) :
    (m.step bus).1.memory = m.memory.writeCells m.stores := by
  rw [step_running bus h, stores]
  simp only [pushCells_eq, following, operandWord, operandByte]
  obtain ⟨p, mem, dev⟩ := m
  generalize next ⟨p, mem, dev⟩ = i
  have hword : p.pc + 1 + 2 = p.pc + 3 := UInt16.add_assoc p.pc 1 2
  cases i with
  | storeAt pointer => cases pointer <;> rfl
  | increment r | decrement r =>
    cases r with
    | m => simp [execute, fetch, getRegister, setRegister, onCpu, Memory.writeCells]
    | _ => rfl
  | moveImmediate r => cases r <;> rfl
  | move target source => cases target <;> cases source <;> rfl
  | push pair => cases pair <;> rfl
  | jumpIf c | retIf c =>
    simp only [execute]
    split <;> rfl
  | call =>
    simp [execute, fetch, fetchWord, callTo, pushWord, jumpTo, onCpu, hword, writeCells_wordCells]
  | callIf c =>
    cases hc : p.holds c with
    | true =>
      simp [execute, fetch, fetchWord, Processor.holds_setPC, hc, callTo, pushWord, jumpTo, onCpu,
        hword, writeCells_wordCells]
    | false => simp [execute, fetch, fetchWord, Processor.holds_setPC, hc, Memory.writeCells]
  | _ => rfl

/-- A step writes at most two cells, those that the instruction stores to, and puts there what it
stores; all other cells keep their values. Instructions that are not listed among the storing
ones, and conditional transfers that are not taken, leave memory as it is. -/
theorem step_writes_stores (bus : Bus σ) (h : m.cpu.halted = false) :
    m.stores.length ≤ 2 ∧
      (∀ cell ∈ m.stores, (m.step bus).1.memory.read cell.1 = cell.2) ∧
      (∀ a, (∀ cell ∈ m.stores, cell.1 ≠ a) →
        (m.step bus).1.memory.read a = m.memory.read a) ∧
      (∀ i, (m.memory.read m.cpu.pc, i) ∈ Instruction.storing → m.next = i) ∧
      (m.memory.read m.cpu.pc ∉ Instruction.storing.map Prod.fst →
        (m.step bus).1.memory = m.memory) ∧
      (∀ c, m.next.condition? = some c → m.cpu.holds c = false →
        (m.step bus).1.memory = m.memory) := by
  have hmemory := memory_step bus h
  refine ⟨length_stores_le m, ?_, ?_, ?_, ?_, ?_⟩
  · intro cell hcell
    rw [hmemory]
    exact Memory.read_writeCells_of_mem m.memory (nodup_stores m) hcell
  · intro a ha
    rw [hmemory]
    exact Memory.read_writeCells_of_ne m.memory ha
  · intro i hi
    exact Instruction.ofOpcode_of_mem_storing (m.memory.read m.cpu.pc, i) hi
  · intro hother
    rw [hmemory, stores_eq_nil hother]
    rfl
  · intro c hnext hc
    rw [step_of_not_holds bus h hnext hc]

/-- A machine at a store of HL whose bytes go round the top of memory, to its own operand. -/
def storeOverItself : Machine Unit where
  cpu := { pc := 0xFFFE, h := 0x12, l := 0x34 }
  memory := .ofFn fun a => if a = 0xFFFE then 0x22 else 0xFF
  devices := ()

theorem step_writes_stores_storeOverItself :
    storeOverItself.cpu.halted = false ∧
      (storeOverItself.step (.none Unit)).1.memory.read 0xFFFF = 0x34 ∧
      (storeOverItself.step (.none Unit)).1.memory.read 0x0000 = 0x12 ∧
      (storeOverItself.step (.none Unit)).1.memory.read 0xFFFE = 0x22 := by
  have hnext : storeOverItself.next = .storePairDirect := by
    simp only [next, storeOverItself, Memory.read_ofFn]
    rfl
  have hoperand : storeOverItself.operandWord = 0xFFFF := by
    rw [operandWord]
    simp only [storeOverItself, Memory.readWord, Memory.read_ofFn]
    rfl
  have hstores : storeOverItself.stores = [(0xFFFF, 0x34), (0x0000, 0x12)] := by
    rw [stores, hnext, hoperand]
    rfl
  have hopcode : storeOverItself.memory.read 0xFFFE = 0x22 := by
    simp only [storeOverItself, Memory.read_ofFn]
    rfl
  obtain ⟨-, hwritten, hkept, -⟩ := step_writes_stores (.none Unit) (m := storeOverItself) rfl
  rw [hstores] at hwritten hkept
  refine ⟨rfl, hwritten (0xFFFF, 0x34) (by simp), hwritten (0x0000, 0x12) (by simp), ?_⟩
  rw [hkept 0xFFFE (by simp), hopcode]

end Machine

end Cpm80
