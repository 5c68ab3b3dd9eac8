import Cpm80.Assembler.Assembly
import Cpm80.Proofs.Expressions

/-!
# The length of an encoding

The sizing pass takes the length of an instruction from the first opcode with its mnemonic, the
emitting pass uses the first opcode whose operand forms fit. These lengths agree because
a mnemonic alone determines the length: all its opcodes have operands of the same widths.
-/
namespace Cpm80

namespace Instruction

/-- The mnemonics of instructions with one byte after the opcode. -/
def byteMnemonics : List String :=
  ["MVI", "ADI", "ACI", "SUI", "SBI", "ANI", "XRI", "ORI", "CPI", "IN", "OUT"]

/-- The mnemonics of instructions with a word after the opcode. -/
def wordMnemonics : List String :=
  ["LXI", "SHLD", "LHLD", "STA", "LDA", "JMP", "CALL", "JNZ", "JZ", "JNC", "JC", "JPO", "JPE",
    "JP", "JM", "CNZ", "CZ", "CNC", "CC", "CPO", "CPE", "CP", "CM"]

def sizeOfMnemonic (mnemonic : String) : Nat :=
  if mnemonic ∈ byteMnemonics then 2 else if mnemonic ∈ wordMnemonics then 3 else 1

/-- A mnemonic determines how long its instructions are. -/
theorem size_eq_sizeOfMnemonic (i : Instruction) : i.size = sizeOfMnemonic i.mnemonic := by
  cases i with
  | arithmetic op r => cases op <;> rfl
  | arithmeticImmediate op => cases op <;> rfl
  | jumpIf c => cases c <;> rfl
  | callIf c => cases c <;> rfl
  | retIf c => cases c <;> rfl
  | _ => rfl

theorem size_of_mem_withMnemonic {mnemonic : String} {opcode : UInt8}
    (h : opcode ∈ withMnemonic mnemonic) :
    (ofOpcode opcode).size = sizeOfMnemonic mnemonic := by
  rw [withMnemonic, List.mem_filter, Bool.and_eq_true, decide_eq_true_eq] at h
  obtain ⟨-, -, hmnemonic⟩ := h
  rw [size_eq_sizeOfMnemonic, hmnemonic]

theorem sizeOfMnemonic_le (mnemonic : String) : sizeOfMnemonic mnemonic ≤ 3 := by
  rw [sizeOfMnemonic]
  split
  · decide
  · split <;> decide

end Instruction

namespace Assembler

variable {symbols : Symbols} {here : UInt16}

theorem length_encodeOperand {form : OperandForm} {operand : List Char} {code : List UInt8}
    (h : encodeOperand symbols here form operand = .ok (some code)) :
    code.length = form.width := by
  cases form with
  | named register =>
    rw [encodeOperand] at h
    split at h
    case isTrue hname =>
      cases h
      rfl
    case isFalse hname => cases h
  | vector n =>
    rw [encodeOperand] at h
    split at h
    case isTrue hregister => cases h
    case isFalse hregister =>
      obtain ⟨v, -, h⟩ := bind_eq_ok.mp h
      split at h
      case isTrue hvalue =>
        cases h
        rfl
      case isFalse hvalue => cases h
  | data8 =>
    rw [encodeOperand] at h
    split at h
    case isTrue hregister => cases h
    case isFalse hregister =>
      obtain ⟨v, -, h⟩ := bind_eq_ok.mp h
      cases h
      rfl
  | data16 | address =>
    rw [encodeOperand] at h
    split at h
    case isTrue hregister => cases h
    case isFalse hregister =>
      obtain ⟨w, -, h⟩ := bind_eq_ok.mp h
      cases h
      rfl

theorem length_encodeOperands {forms : List OperandForm} {operands : List (List Char)}
    {code : List UInt8} (h : encodeOperands symbols here forms operands = .ok (some code)) :
    code.length = OperandForm.totalWidth forms := by
  induction forms generalizing operands code with
  | nil =>
    cases operands with
    | nil =>
      cases h
      rfl
    | cons operand operands => cases h
  | cons form forms ih =>
    cases operands with
    | nil => cases h
    | cons operand operands =>
      rw [encodeOperands, bind_eq_ok] at h
      obtain ⟨front?, hfront, h⟩ := h
      cases front? with
      | none => cases h
      | some front =>
        obtain ⟨back?, hback, h⟩ := bind_eq_ok.mp h
        cases back? with
        | none => cases h
        | some back =>
          cases h
          rw [List.length_append, length_encodeOperand hfront, ih hback,
            OperandForm.totalWidth]

theorem length_encodeWith {operands : List (List Char)} {opcode : UInt8} {code : List UInt8}
    (h : encodeWith symbols here operands opcode = .ok (some code)) :
    code.length = (Instruction.ofOpcode opcode).size := by
  rw [encodeWith] at h
  split at h
  case isTrue hcount =>
    obtain ⟨back?, hback, h⟩ := bind_eq_ok.mp h
    cases back? with
    | none => cases h
    | some back =>
      cases h
      rw [List.length_cons, length_encodeOperands hback, Instruction.size, Nat.add_comm]
  case isFalse hcount => cases h

/-- An encoding is that of one of the candidate opcodes. -/
theorem exists_encodeWith {mnemonic : String} {operands : List (List Char)}
    {opcodes code : List UInt8}
    (h : encodeFirst symbols here mnemonic operands opcodes = .ok code) :
    ∃ opcode ∈ opcodes, encodeWith symbols here operands opcode = .ok (some code) := by
  induction opcodes with
  | nil => cases h
  | cons opcode rest ih =>
    rw [encodeFirst, bind_eq_ok] at h
    obtain ⟨code?, hcode, h⟩ := h
    cases code? with
    | none =>
      obtain ⟨other, hmem, hother⟩ := ih h
      exact ⟨other, List.mem_cons_of_mem opcode hmem, hother⟩
    | some found =>
      cases h
      exact ⟨opcode, List.mem_cons_self, hcode⟩

/-- What is emitted for an instruction is as long as its mnemonic says. -/
theorem length_encode {mnemonic : String} {operands : List (List Char)} {code : List UInt8}
    (h : encode symbols here mnemonic operands = .ok code) :
    code.length = Instruction.sizeOfMnemonic mnemonic := by
  rw [encode] at h
  split at h
  case h_1 hnone => cases h
  case h_2 hsome =>
    obtain ⟨opcode, hmem, hwith⟩ := exists_encodeWith h
    rw [length_encodeWith hwith, Instruction.size_of_mem_withMnemonic hmem]

end Assembler

end Cpm80
