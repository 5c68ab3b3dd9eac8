import Cpm80.Text.Numeral

/-!
# The instruction set

An opcode byte names one instruction: `Instruction.ofOpcode` reads the operation and the
register, pair or condition fields off the byte. Twelve bytes name no documented instruction
and stand for a one-byte operation without effect. What an instruction looks like in source
text (mnemonic and operands), how many bytes it takes and what it costs are functions of the
instruction; its effect is given with the processor.
-/
namespace Cpm80

/-- A byte operand: a register, or the memory cell that HL points at. -/
inductive Register
  | b | c | d | e | h | l | m | a
  deriving DecidableEq, Repr

namespace Register

/-- The register named by the low three bits of a field. -/
def ofCode (code : UInt8) : Register :=
  match (code &&& 7).toNat with
  | 0 => b
  | 1 => c
  | 2 => d
  | 3 => e
  | 4 => h
  | 5 => l
  | 6 => m
  | _ => a

def name : Register → String
  | b => "B"
  | c => "C"
  | d => "D"
  | e => "E"
  | h => "H"
  | l => "L"
  | m => "M"
  | a => "A"

end Register

/-- A word operand of arithmetic and immediate loads. -/
inductive Pair
  | bc | de | hl | sp
  deriving DecidableEq, Repr

namespace Pair

/-- The pair named by the low two bits of a field. -/
def ofCode (code : UInt8) : Pair :=
  match (code &&& 3).toNat with
  | 0 => bc
  | 1 => de
  | 2 => hl
  | _ => sp

def name : Pair → String
  | bc => "B"
  | de => "D"
  | hl => "H"
  | sp => "SP"

end Pair

/-- A word that can be pushed: a register pair, or the accumulator with the flags. -/
inductive StackPair
  | bc | de | hl | psw
  deriving DecidableEq, Repr

namespace StackPair

def ofCode (code : UInt8) : StackPair :=
  match (code &&& 3).toNat with
  | 0 => bc
  | 1 => de
  | 2 => hl
  | _ => psw

def name : StackPair → String
  | bc => "B"
  | de => "D"
  | hl => "H"
  | psw => "PSW"

end StackPair

/-- A pair that can point at a byte for an accumulator transfer. -/
inductive Pointer
  | bc | de
  deriving DecidableEq, Repr

def Pointer.name : Pointer → String
  | .bc => "B"
  | .de => "D"

/-- What a conditional transfer of control asks of the flags. -/
inductive Condition
  | notZero | zero | noCarry | carry | parityOdd | parityEven | plus | minus
  deriving DecidableEq, Repr

namespace Condition

def ofCode (code : UInt8) : Condition :=
  match (code &&& 7).toNat with
  | 0 => notZero
  | 1 => zero
  | 2 => noCarry
  | 3 => carry
  | 4 => parityOdd
  | 5 => parityEven
  | 6 => plus
  | _ => minus

def name : Condition → String
  | notZero => "NZ"
  | zero => "Z"
  | noCarry => "NC"
  | carry => "C"
  | parityOdd => "PO"
  | parityEven => "PE"
  | plus => "P"
  | minus => "M"

end Condition

/-- An operation on the accumulator and one more byte. -/
inductive Arithmetic
  | add | addCarry | sub | subBorrow | and | xor | or | compare
  deriving DecidableEq, Repr

namespace Arithmetic

def ofCode (code : UInt8) : Arithmetic :=
  match (code &&& 7).toNat with
  | 0 => add
  | 1 => addCarry
  | 2 => sub
  | 3 => subBorrow
  | 4 => and
  | 5 => xor
  | 6 => or
  | _ => compare

/-- The mnemonic for a register or memory operand. -/
def name : Arithmetic → String
  | add => "ADD"
  | addCarry => "ADC"
  | sub => "SUB"
  | subBorrow => "SBB"
  | and => "ANA"
  | xor => "XRA"
  | or => "ORA"
  | compare => "CMP"

/-- The mnemonic for an immediate operand. -/
def immediateName : Arithmetic → String
  | add => "ADI"
  | addCarry => "ACI"
  | sub => "SUI"
  | subBorrow => "SBI"
  | and => "ANI"
  | xor => "XRI"
  | or => "ORI"
  | compare => "CPI"

end Arithmetic

inductive Instruction
  | nop
  /-- An opcode without a documented meaning. -/
  | undefined
  | loadPair (p : Pair)
  | storeAt (p : Pointer)
  | loadFrom (p : Pointer)
  | storePairDirect
  | loadPairDirect
  | storeDirect
  | loadDirect
  | incrementPair (p : Pair)
  | decrementPair (p : Pair)
  | addPair (p : Pair)
  | increment (r : Register)
  | decrement (r : Register)
  | moveImmediate (r : Register)
  | rotateLeft
  | rotateRight
  | rotateLeftThroughCarry
  | rotateRightThroughCarry
  | decimalAdjust
  | complement
  | setCarry
  | complementCarry
  | halt
  | move (target source : Register)
  | arithmetic (op : Arithmetic) (r : Register)
  | arithmeticImmediate (op : Arithmetic)
  | jump
  | jumpIf (c : Condition)
  | jumpToHL
  | call
  | callIf (c : Condition)
  /-- A call to eight times `n`. -/
  | restart (n : Fin 8)
  | ret
  | retIf (c : Condition)
  | push (p : StackPair)
  | pop (p : StackPair)
  | exchangeStackTop
  | exchangePairs
  | stackFromHL
  | output
  | input
  | disableInterrupts
  | enableInterrupts
  deriving DecidableEq, Repr

/-- How one operand appears in source text: as the name of a register, as the number of a
restart, or as a value that is encoded in the bytes after the opcode. -/
inductive OperandForm
  | named (register : String)
  | vector (n : Fin 8)
  | data8
  | data16
  | address
  deriving DecidableEq, Repr

namespace OperandForm

def text : OperandForm → String
  | named register => register
  | vector n => n.val.repr
  | data8 => "d8"
  | data16 => "d16"
  | address => "a16"

/-- The number of bytes that the operand takes after the opcode. -/
def width : OperandForm → Nat
  | named _ | vector _ => 0
  | data8 => 1
  | data16 => 2
  | address => 2

/-- The number of bytes that operands take together. -/
def totalWidth : List OperandForm → Nat
  | [] => 0
  | form :: rest => form.width + totalWidth rest

end OperandForm

namespace Instruction

/-- Opcodes below 40H, by their low three bits. -/
def ofLowOpcode (op : UInt8) : Instruction :=
  let field := op >>> 3
  let upper := field &&& 1 != 0
  let pair := Pair.ofCode (op >>> 4)
  match (op &&& 7).toNat with
  | 0 => if op = 0 then nop else undefined
  | 1 => if upper then addPair pair else loadPair pair
  | 2 =>
    match (field &&& 7).toNat with
    | 0 => storeAt .bc
    | 1 => loadFrom .bc
    | 2 => storeAt .de
    | 3 => loadFrom .de
    | 4 => storePairDirect
    | 5 => loadPairDirect
    | 6 => storeDirect
    | _ => loadDirect
  | 3 => if upper then decrementPair pair else incrementPair pair
  | 4 => increment (.ofCode field)
  | 5 => decrement (.ofCode field)
  | 6 => moveImmediate (.ofCode field)
  | _ =>
    match (field &&& 7).toNat with
    | 0 => rotateLeft
    | 1 => rotateRight
    | 2 => rotateLeftThroughCarry
    | 3 => rotateRightThroughCarry
    | 4 => decimalAdjust
    | 5 => complement
    | 6 => setCarry
    | _ => complementCarry

/-- Opcodes from C0H on, by their low three bits. -/
def ofHighOpcode (op : UInt8) : Instruction :=
  let field := op >>> 3
  let upper := field &&& 1 != 0
  match (op &&& 7).toNat with
  | 0 => retIf (.ofCode field)
  | 1 =>
    match (field &&& 7).toNat with
    | 1 => ret
    | 3 => undefined
    | 5 => jumpToHL
    | 7 => stackFromHL
    | _ => pop (.ofCode (op >>> 4))
  | 2 => jumpIf (.ofCode field)
  | 3 =>
    match (field &&& 7).toNat with
    | 0 => jump
    | 1 => undefined
    | 2 => output
    | 3 => input
    | 4 => exchangeStackTop
    | 5 => exchangePairs
    | 6 => disableInterrupts
    | _ => enableInterrupts
  | 4 => callIf (.ofCode field)
  | 5 =>
    if upper then if op = 0xCD then call else undefined
    else push (.ofCode (op >>> 4))
  | 6 => arithmeticImmediate (.ofCode field)
  | _ => restart (Fin.ofNat 8 field.toNat)

/-- The instruction that an opcode byte names. -/
def ofOpcode (op : UInt8) : Instruction :=
  match (op >>> 6).toNat with
  | 0 => ofLowOpcode op
  | 1 => if op = 0x76 then halt else move (.ofCode (op >>> 3)) (.ofCode op)
  | 2 => arithmetic (.ofCode (op >>> 3)) (.ofCode op)
  | _ => ofHighOpcode op

def mnemonic : Instruction → String
  | nop => "NOP"
  | undefined => "???"
  | loadPair _ => "LXI"
  | storeAt _ => "STAX"
  | loadFrom _ => "LDAX"
  | storePairDirect => "SHLD"
  | loadPairDirect => "LHLD"
  | storeDirect => "STA"
  | loadDirect => "LDA"
  | incrementPair _ => "INX"
  | decrementPair _ => "DCX"
  | addPair _ => "DAD"
  | increment _ => "INR"
  | decrement _ => "DCR"
  | moveImmediate _ => "MVI"
  | rotateLeft => "RLC"
  | rotateRight => "RRC"
  | rotateLeftThroughCarry => "RAL"
  | rotateRightThroughCarry => "RAR"
  | decimalAdjust => "DAA"
  | complement => "CMA"
  | setCarry => "STC"
  | complementCarry => "CMC"
  | halt => "HLT"
  | move _ _ => "MOV"
  | arithmetic op _ => op.name
  | arithmeticImmediate op => op.immediateName
  | jump => "JMP"
  | jumpIf c => "J" ++ c.name
  | jumpToHL => "PCHL"
  | call => "CALL"
  | callIf c => "C" ++ c.name
  | restart _ => "RST"
  | ret => "RET"
  | retIf c => "R" ++ c.name
  | push _ => "PUSH"
  | pop _ => "POP"
  | exchangeStackTop => "XTHL"
  | exchangePairs => "XCHG"
  | stackFromHL => "SPHL"
  | output => "OUT"
  | input => "IN"
  | disableInterrupts => "DI"
  | enableInterrupts => "EI"

/-- The operands in the order in which they are written. -/
def operands : Instruction → List OperandForm
  | loadPair p => [.named p.name, .data16]
  | storeAt p | loadFrom p => [.named p.name]
  | storePairDirect | loadPairDirect | storeDirect | loadDirect => [.address]
  | incrementPair p | decrementPair p | addPair p => [.named p.name]
  | increment r | decrement r => [.named r.name]
  | moveImmediate r => [.named r.name, .data8]
  | move target source => [.named target.name, .named source.name]
  | arithmetic _ r => [.named r.name]
  | arithmeticImmediate _ => [.data8]
  | jump | jumpIf _ | call | callIf _ => [.address]
  | restart n => [.vector n]
  | push p | pop p => [.named p.name]
  | output | input => [.data8]
  | _ => []

/-- The operands as one text, such as `A,d8`. -/
def operandText (i : Instruction) : String :=
  ",".intercalate (i.operands.map OperandForm.text)

/-- The number of bytes that the instruction takes, opcode included. -/
def size (i : Instruction) : Nat :=
  1 + OperandForm.totalWidth i.operands

def isDefined (i : Instruction) : Bool :=
  i != undefined

/-- The opcodes in ascending order. -/
def opcodes : List UInt8 :=
  (List.range 256).map UInt8.ofNat

theorem mem_opcodes (op : UInt8) : op ∈ opcodes := by
  refine List.mem_map.mpr ⟨op.toNat, List.mem_range.mpr op.toNat_lt, ?_⟩
  exact UInt8.ofNat_toNat

/-- The defined opcodes with the given mnemonic, in ascending order. -/
def withMnemonic (mnemonic : String) : List UInt8 :=
  opcodes.filter fun op => (ofOpcode op).isDefined && (ofOpcode op).mnemonic = mnemonic

/-- Costs more when the operand is in memory. -/
def byRegister (r : Register) (inRegister inMemory : Nat) : Nat :=
  if r = .m then inMemory else inRegister

/-- The cost in clock cycles. A conditional transfer is charged as if it were taken. -/
def cycles : Instruction → Nat
  | nop | undefined => 4
  | loadPair _ | addPair _ => 10
  | storeAt _ | loadFrom _ => 7
  | storePairDirect | loadPairDirect => 16
  | storeDirect | loadDirect => 13
  | incrementPair _ | decrementPair _ => 5
  | increment r | decrement r => byRegister r 5 10
  | moveImmediate r => byRegister r 7 10
  | rotateLeft | rotateRight | rotateLeftThroughCarry | rotateRightThroughCarry => 4
  | decimalAdjust | complement | setCarry | complementCarry => 4
  | halt => 7
  | move target source => max (byRegister target 5 7) (byRegister source 5 7)
  | arithmetic _ r => byRegister r 4 7
  | arithmeticImmediate _ => 7
  | jump | jumpIf _ => 10
  | jumpToHL => 5
  | call | callIf _ => 17
  | restart _ => 11
  | ret => 10
  | retIf _ => 11
  | push _ => 11
  | pop _ => 10
  | exchangeStackTop => 18
  | exchangePairs | stackFromHL => 5
  | output | input => 10
  | disableInterrupts | enableInterrupts => 4

theorem four_le_cycles (i : Instruction) : 4 ≤ i.cycles := by
  cases i <;> grind [cycles, byRegister]

/-- An operand as it is written, its value taken from the two bytes after the opcode. -/
def renderOperand (low high : UInt8) : OperandForm → String
  | .named register => register
  | .vector n => n.val.repr
  | .data8 => Hex.byte low ++ "H"
  | .data16 | .address => Hex.byte high ++ Hex.byte low ++ "H"

/-- The source text of the instruction with the given operand bytes. -/
def render (i : Instruction) (low high : UInt8) : String :=
  match i.operands with
  | [] => i.mnemonic
  | forms => i.mnemonic ++ " " ++ ",".intercalate (forms.map (renderOperand low high))

end Instruction

/-- The source text of the instruction at the front of `code`; bytes that are missing count
as zero. -/
def disassemble (code : List UInt8) : String :=
  (Instruction.ofOpcode (code.getD 0 0)).render (code.getD 1 0) (code.getD 2 0)

end Cpm80
