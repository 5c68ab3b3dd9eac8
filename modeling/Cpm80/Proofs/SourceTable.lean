import Cpm80.Proofs.Encoding
import Cpm80.Proofs.HexTerms

/-!
# Instructions by their source text

The mnemonic of an instruction tells how many operands of which kinds follow it, and together
with the operands as the instruction set shows them it tells the opcode. So of the opcodes with
a mnemonic only one takes given operands: all others turn them down at a register or a restart
number, before they look at a value.
-/
namespace Cpm80

/-- The forms of operands, without their registers and their numbers. -/
inductive OperandKind
  | named
  | vector
  | data8
  | data16
  | address

def OperandForm.kind : OperandForm → OperandKind
  | named _ => .named
  | vector _ => .vector
  | data8 => .data8
  | data16 => .data16
  | address => .address

namespace Instruction

open Assembler

/-- Where a name stands among the names of a field. -/
def field (names : List String) (name : String) : UInt8 :=
  UInt8.ofNat (names.idxOf name)

def registerField : String → UInt8 :=
  field ["B", "C", "D", "E", "H", "L", "M", "A"]

def pairField : String → UInt8 :=
  field ["B", "D", "H", "SP"]

def stackPairField : String → UInt8 :=
  field ["B", "D", "H", "PSW"]

def conditionals (stem : String) : List String :=
  ["NZ", "Z", "NC", "C", "PO", "PE", "P", "M"].map (stem ++ ·)

/-- The opcode of a line of the instruction set, from its mnemonic and its operands. -/
def opcodeOf (mnemonic : String) (operands : List String) : UInt8 :=
  match mnemonic, operands with
  | "MOV", [target, source] => 0x40 + 8 * registerField target + registerField source
  | "MVI", [r, _] => 0x06 + 8 * registerField r
  | "INR", [r] => 0x04 + 8 * registerField r
  | "DCR", [r] => 0x05 + 8 * registerField r
  | "LXI", [p, _] => 0x01 + 16 * pairField p
  | "STAX", [p] => 0x02 + 16 * pairField p
  | "INX", [p] => 0x03 + 16 * pairField p
  | "DAD", [p] => 0x09 + 16 * pairField p
  | "LDAX", [p] => 0x0A + 16 * pairField p
  | "DCX", [p] => 0x0B + 16 * pairField p
  | "POP", [p] => 0xC1 + 16 * stackPairField p
  | "PUSH", [p] => 0xC5 + 16 * stackPairField p
  | "RST", [n] => 0xC7 + 8 * field ["0", "1", "2", "3", "4", "5", "6", "7"] n
  | "NOP", _ => 0x00
  | "RLC", _ => 0x07
  | "RRC", _ => 0x0F
  | "RAL", _ => 0x17
  | "RAR", _ => 0x1F
  | "SHLD", _ => 0x22
  | "DAA", _ => 0x27
  | "LHLD", _ => 0x2A
  | "CMA", _ => 0x2F
  | "STA", _ => 0x32
  | "STC", _ => 0x37
  | "LDA", _ => 0x3A
  | "CMC", _ => 0x3F
  | "HLT", _ => 0x76
  | "JMP", _ => 0xC3
  | "RET", _ => 0xC9
  | "CALL", _ => 0xCD
  | "OUT", _ => 0xD3
  | "IN", _ => 0xDB
  | "XTHL", _ => 0xE3
  | "PCHL", _ => 0xE9
  | "XCHG", _ => 0xEB
  | "DI", _ => 0xF3
  | "SPHL", _ => 0xF9
  | "EI", _ => 0xFB
  | _, [] => 0xC0 + 8 * field (conditionals "R") mnemonic
  | _, ["a16"] =>
    if mnemonic ∈ conditionals "J" then 0xC2 + 8 * field (conditionals "J") mnemonic
    else 0xC4 + 8 * field (conditionals "C") mnemonic
  | _, ["d8"] =>
    0xC6 + 8 * field ["ADI", "ACI", "SUI", "SBI", "ANI", "XRI", "ORI", "CPI"] mnemonic
  | _, r :: _ =>
    0x80 + 8 * field ["ADD", "ADC", "SUB", "SBB", "ANA", "XRA", "ORA", "CMP"] mnemonic +
      registerField r

theorem opcodeOf_ofOpcode : ∀ op ∈ opcodes, (ofOpcode op).isDefined →
    opcodeOf (ofOpcode op).mnemonic ((ofOpcode op).operands.map OperandForm.text) = op := by
  decide +kernel

/-- A defined opcode is known by its mnemonic and its operands. -/
theorem opcode_eq_of_source {op other : UInt8} (hop : (ofOpcode op).isDefined)
    (hother : (ofOpcode other).isDefined)
    (hmnemonic : (ofOpcode other).mnemonic = (ofOpcode op).mnemonic)
    (hoperands : (ofOpcode other).operands = (ofOpcode op).operands) : other = op := by
  rw [← opcodeOf_ofOpcode other (mem_opcodes other) hother, hmnemonic, hoperands,
    opcodeOf_ofOpcode op (mem_opcodes op) hop]

theorem mem_withMnemonic {mnemonic : String} {op : UInt8} :
    op ∈ withMnemonic mnemonic ↔
      (ofOpcode op).isDefined ∧ (ofOpcode op).mnemonic = mnemonic := by
  simp [withMnemonic, mem_opcodes]

/-! ## Operands -/

/-- The kinds of operands that follow a mnemonic. -/
def kindsOf (mnemonic : String) : List OperandKind :=
  if mnemonic = "MOV" then [.named, .named]
  else if mnemonic = "MVI" then [.named, .data8]
  else if mnemonic = "LXI" then [.named, .data16]
  else if mnemonic = "RST" then [.vector]
  else if mnemonic ∈ byteMnemonics then [.data8]
  else if mnemonic ∈ wordMnemonics then [.address]
  else if mnemonic ∈ ["ADD", "ADC", "SUB", "SBB", "ANA", "XRA", "ORA", "CMP", "INR", "DCR", "INX",
      "DCX", "DAD", "STAX", "LDAX", "PUSH", "POP"] then [.named]
  else []

theorem map_kind_operands (i : Instruction) :
    i.operands.map OperandForm.kind = kindsOf i.mnemonic := by
  cases i with
  | arithmetic op r => cases op <;> rfl
  | arithmeticImmediate op => cases op <;> rfl
  | jumpIf c => cases c <;> rfl
  | callIf c => cases c <;> rfl
  | retIf c => cases c <;> rfl
  | _ => rfl

/-- Operands as instructions have them: registers, and then one value at most. -/
inductive Written : List OperandForm → Prop
  | nil : Written []
  | named {register : String} {rest : List OperandForm} (hregister : register ∈ registerNames)
    (hrest : Written rest) : Written (.named register :: rest)
  | vector (n : Fin 8) : Written [.vector n]
  | data8 : Written [.data8]
  | data16 : Written [.data16]
  | address : Written [.address]

theorem Register.name_mem (r : Register) : r.name ∈ registerNames := by
  cases r <;> decide

theorem Pair.name_mem (p : Pair) : p.name ∈ registerNames := by
  cases p <;> decide

theorem StackPair.name_mem (p : StackPair) : p.name ∈ registerNames := by
  cases p <;> decide

theorem Pointer.name_mem (p : Pointer) : p.name ∈ registerNames := by
  cases p <;> decide

theorem written_operands (i : Instruction) : Written i.operands := by
  cases i with
  | loadPair p => exact .named (Pair.name_mem p) .data16
  | storeAt p | loadFrom p => exact .named (Pointer.name_mem p) .nil
  | incrementPair p | decrementPair p | addPair p => exact .named (Pair.name_mem p) .nil
  | increment r | decrement r | arithmetic op r => exact .named (Register.name_mem r) .nil
  | moveImmediate r => exact .named (Register.name_mem r) .data8
  | move target source =>
    exact .named (Register.name_mem target) (.named (Register.name_mem source) .nil)
  | push p | pop p => exact .named (StackPair.name_mem p) .nil
  | restart n => exact .vector n
  | arithmeticImmediate op | output | input => exact .data8
  | storePairDirect | loadPairDirect | storeDirect | loadDirect => exact .address
  | jump | jumpIf c | call | callIf c => exact .address
  | _ => exact .nil

/-- Operands that part at a register or at a restart number. -/
inductive Differ : List OperandForm → List OperandForm → Prop
  | named {r s : String} (hne : r ≠ s) (forms others : List OperandForm) :
    Differ (.named r :: forms) (.named s :: others)
  | vector {m n : Fin 8} (hne : m ≠ n) (forms others : List OperandForm) :
    Differ (.vector m :: forms) (.vector n :: others)
  | tail {forms others : List OperandForm} (r : String) (h : Differ forms others) :
    Differ (.named r :: forms) (.named r :: others)

theorem Written.eq_or_differ {forms others : List OperandForm} (hforms : Written forms)
    (hothers : Written others) (h : forms.map OperandForm.kind = others.map OperandForm.kind) :
    forms = others ∨ Differ forms others := by
  induction hforms generalizing others with
  | nil =>
    cases hothers with
    | nil => exact .inl rfl
    | _ => cases h
  | @named register rest hregister hrest ih =>
    cases hothers with
    | @named other rest' hother hrest' =>
      by_cases hsame : register = other
      · subst hsame
        rcases ih hrest' (List.cons.inj h).2 with heq | hdiffer
        · exact .inl (congrArg _ heq)
        · exact .inr (.tail register hdiffer)
      · exact .inr (.named hsame _ _)
    | _ => cases h
  | vector m =>
    cases hothers with
    | vector n =>
      by_cases hsame : m = n
      · exact .inl (hsame ▸ rfl)
      · exact .inr (.vector hsame _ _)
    | _ => cases h
  | data8 =>
    cases hothers with
    | data8 => exact .inl rfl
    | _ => cases h
  | data16 =>
    cases hothers with
    | data16 => exact .inl rfl
    | _ => cases h
  | address =>
    cases hothers with
    | address => exact .inl rfl
    | _ => cases h

/-- Two opcodes with one mnemonic part at a register or at a restart number. -/
theorem differ_of_mnemonic_eq {op other : UInt8} (hop : (ofOpcode op).isDefined)
    (hother : (ofOpcode other).isDefined)
    (hmnemonic : (ofOpcode other).mnemonic = (ofOpcode op).mnemonic) (hne : other ≠ op) :
    Differ (ofOpcode other).operands (ofOpcode op).operands := by
  have hkinds : (ofOpcode other).operands.map OperandForm.kind =
      (ofOpcode op).operands.map OperandForm.kind := by
    rw [map_kind_operands, map_kind_operands, hmnemonic]
  rcases (written_operands _).eq_or_differ (written_operands _) hkinds with heq | hdiffer
  · exact absurd (opcode_eq_of_source hop hother hmnemonic heq) hne
  · exact hdiffer

end Instruction
end Cpm80
