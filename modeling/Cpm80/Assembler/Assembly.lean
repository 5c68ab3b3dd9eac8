import Cpm80.Word
import Cpm80.Instruction
import Cpm80.Assembler.Statement

/-!
# Two passes over the statements

The sizing pass gives every statement its address and defines the symbols; the emitting pass
computes the operands and builds the image. A line that was found wrong in the first pass is
left out of the second. Both passes move a cursor: an `ORG` before anything has been emitted
moves the origin, a later one fills the gap with zeros. What a statement did before it was
found wrong stays done, so later lines are still reported at their proper addresses.
-/
namespace Cpm80.Assembler

/-- Where the image starts, and the address of the next byte. The address has 32 bits, as there
is one behind the last cell of memory. -/
structure Cursor where
  origin : UInt16
  address : UInt32
  deriving DecidableEq, Repr

namespace Cursor

def start (origin : UInt16) : Cursor :=
  ⟨origin, origin.toUInt32⟩

/-- Moves over `count` bytes. The first address past the end of memory may be reached but
not passed. Of the count only the lowest 32 bits are used, and the sum goes round. -/
def advance (c : Cursor) (count : Nat) : Except Fault Cursor :=
  let last := c.address + UInt32.ofNat count
  if last ≤ 65536 then .ok { c with address := last } else .error .addressOverflow

/-- Moves to `address`, and gives the number of zeros that fill the gap. -/
def moveTo (c : Cursor) (address : UInt16) : Except Fault (Cursor × Nat) :=
  if c.address = c.origin.toUInt32 then .ok (start address, 0)
  else if address.toUInt32 < c.address then .error (.originBackwards address)
  else
    let gap := (address.toUInt32 - c.address).toNat
    match c.advance gap with
    | .ok c => .ok (c, gap)
    | .error e => .error e

/-- The address of the next byte as a word. -/
def here (c : Cursor) : UInt16 :=
  c.address.toUInt16

end Cursor

/-- The only operand of a directive. -/
def single (op : Operation) : List (List Char) → Except Fault (List Char)
  | [operand] => .ok operand
  | [] => .error (.missingOperand op.mnemonic)
  | _ => .error (.invalidOperands op.mnemonic)

/-- The result of a statement: the new state, and what was wrong, if anything. -/
abbrev Outcome (σ : Type) := σ × Option Fault

/-! ## Sizing -/

structure Sizing where
  cursor : Cursor
  symbols : Symbols

namespace Sizing

def define (s : Sizing) (name : String) (value : UInt16) : Outcome Sizing :=
  if s.symbols.contains name then (s, some (.duplicateLabel name))
  else ({ s with symbols := s.symbols.insert name value }, none)

def advance (s : Sizing) (count : Nat) : Outcome Sizing :=
  match s.cursor.advance count with
  | .ok cursor => ({ s with cursor }, none)
  | .error e => (s, some e)

/-- Reserves the bytes of data operands; an expression takes one byte. -/
def bytes (s : Sizing) : List (List Char) → Outcome Sizing
  | [] => (s, none)
  | operand :: rest =>
    match quoted? operand with
    | .error e => (s, some e)
    | .ok text =>
      let count := match text with
        | some text => (Utf8.encode text).length
        | none => 1
      match s.advance count with
      | (s, none) => s.bytes rest
      | (s, some e) => (s, some e)

/-- Reserves two bytes for each operand. -/
def words (s : Sizing) : List (List Char) → Outcome Sizing
  | [] => (s, none)
  | _ :: rest =>
    match s.advance 2 with
    | (s, none) => s.words rest
    | (s, some e) => (s, some e)

/-- Does what the operation does to addresses and symbols; `here` is the address of the
statement. -/
def operation (s : Sizing) (here : UInt16) (st : Statement) (op : Operation) : Outcome Sizing :=
  match op with
  | .finish => (s, none)
  | .equate =>
    match st.label with
    | none => (s, some .missingLabel)
    | some name =>
      match single op st.operands >>= wordValue s.symbols here with
      | .error e => (s, some e)
      | .ok value => s.define name value
  | .origin =>
    match single op st.operands >>= wordValue s.symbols here >>= s.cursor.moveTo with
    | .error e => (s, some e)
    | .ok (cursor, _) => ({ s with cursor }, none)
  | .bytes =>
    if st.operands.isEmpty then (s, some (.missingOperand op.mnemonic))
    else s.bytes st.operands
  | .words =>
    if st.operands.isEmpty then (s, some (.missingOperand op.mnemonic))
    else s.words st.operands
  | .space =>
    match single op st.operands >>= wordValue s.symbols here with
    | .error e => (s, some e)
    | .ok count => s.advance count.toNat
  | .instruction mnemonic =>
    match Instruction.withMnemonic mnemonic with
    | [] => (s, some (.unknownMnemonic mnemonic))
    | opcode :: _ => s.advance (Instruction.ofOpcode opcode).size

/-- A label stands for the address of its statement, except in front of an `EQU`. -/
def statement (s : Sizing) (st : Statement) : Outcome Sizing :=
  let here := s.cursor.here
  let labelled : Outcome Sizing :=
    match st.label with
    | some name => if st.operation = some .equate then (s, none) else s.define name here
    | none => (s, none)
  match labelled with
  | (s, some e) => (s, some e)
  | (s, none) =>
    match st.operation with
    | none => (s, none)
    | some op => s.operation here st op

end Sizing

/-- A pass over numbered statements: the final state, the statements that went well and what
was wrong with the others, the latter two in reverse after what is given. -/
def pass {σ : Type} (run : σ → Statement → Outcome σ) (s : σ)
    (good : List (Nat × Statement)) (bad : List Diagnostic) :
    List (Nat × Statement) → σ × List (Nat × Statement) × List Diagnostic
  | [] => (s, good.reverse, bad.reverse)
  | (line, st) :: rest =>
    match run s st with
    | (s, none) => pass run s ((line, st) :: good) bad rest
    | (s, some e) => pass run s good (⟨line, e⟩ :: bad) rest

/-! ## Emitting -/

def registerNames : List String :=
  ["A", "B", "C", "D", "E", "H", "L", "M", "SP", "PSW"]

def isRegister (operand : List Char) : Bool :=
  registerNames.contains (String.ofList (Text.upper operand))

/-- The bytes that an operand contributes in the place of an operand form; nothing if it does
not have that form. -/
def encodeOperand (symbols : Symbols) (here : UInt16) (form : OperandForm)
    (operand : List Char) : Except Fault (Option (List UInt8)) :=
  match form with
  | .named register =>
    .ok (if String.ofList (Text.upper operand) = register then some [] else none)
  | .vector n =>
    if isRegister operand then .ok none
    else do
      let v ← evaluate symbols here operand
      .ok (if v = n.val then some [] else none)
  | .data8 =>
    if isRegister operand then .ok none
    else do
      let v ← byteValue symbols here operand
      .ok (some [v])
  | .data16 | .address =>
    if isRegister operand then .ok none
    else do
      let w ← wordValue symbols here operand
      .ok (some [lowByte w, highByte w])

/-- The operand bytes of an instruction; nothing if the operands do not have its forms. -/
def encodeOperands (symbols : Symbols) (here : UInt16) :
    List OperandForm → List (List Char) → Except Fault (Option (List UInt8))
  | [], [] => .ok (some [])
  | form :: forms, operand :: operands => do
    match ← encodeOperand symbols here form operand with
    | none => .ok none
    | some front =>
      let back ← encodeOperands symbols here forms operands
      .ok (back.map (front ++ ·))
  | _, _ => .ok none

/-- Encodes with one opcode. A wrong number of operands is seen before any is computed. -/
def encodeWith (symbols : Symbols) (here : UInt16) (operands : List (List Char))
    (opcode : UInt8) : Except Fault (Option (List UInt8)) :=
  let forms := (Instruction.ofOpcode opcode).operands
  if forms.length = operands.length then do
    let back ← encodeOperands symbols here forms operands
    .ok (back.map (opcode :: ·))
  else .ok none

/-- Encodes with the first of the opcodes whose operand forms fit. -/
def encodeFirst (symbols : Symbols) (here : UInt16) (mnemonic : String)
    (operands : List (List Char)) : List UInt8 → Except Fault (List UInt8)
  | [] => .error (.invalidOperands mnemonic)
  | opcode :: rest => do
    match ← encodeWith symbols here operands opcode with
    | some code => .ok code
    | none => encodeFirst symbols here mnemonic operands rest

def encode (symbols : Symbols) (here : UInt16) (mnemonic : String)
    (operands : List (List Char)) : Except Fault (List UInt8) :=
  match Instruction.withMnemonic mnemonic with
  | [] => .error (.unknownMnemonic mnemonic)
  | opcodes => encodeFirst symbols here mnemonic operands opcodes

structure Emission where
  cursor : Cursor
  image : Array UInt8

namespace Emission

def emit (s : Emission) (code : List UInt8) : Outcome Emission :=
  match s.cursor.advance code.length with
  | .ok cursor => (⟨cursor, s.image.appendList code⟩, none)
  | .error e => (s, some e)

/-- Emits the bytes of data operands: strings as they are, expressions as one byte. -/
def bytes (s : Emission) (symbols : Symbols) (here : UInt16) :
    List (List Char) → Outcome Emission
  | [] => (s, none)
  | operand :: rest =>
    let code : Except Fault (List UInt8) := do
      match ← quoted? operand with
      | some text => .ok (Utf8.encode text)
      | none =>
        let v ← byteValue symbols here operand
        .ok [v]
    match code with
    | .error e => (s, some e)
    | .ok code =>
      match s.emit code with
      | (s, none) => s.bytes symbols here rest
      | (s, some e) => (s, some e)

/-- Emits each operand as a word. -/
def words (s : Emission) (symbols : Symbols) (here : UInt16) :
    List (List Char) → Outcome Emission
  | [] => (s, none)
  | operand :: rest =>
    match wordValue symbols here operand with
    | .error e => (s, some e)
    | .ok w =>
      match s.emit [lowByte w, highByte w] with
      | (s, none) => s.words symbols here rest
      | (s, some e) => (s, some e)

def operation (s : Emission) (symbols : Symbols) (here : UInt16) (st : Statement)
    (op : Operation) : Outcome Emission :=
  match op with
  | .finish => (s, none)
  | .equate => (s, if st.label.isNone then some .missingLabel else none)
  | .origin =>
    match single op st.operands >>= wordValue symbols here >>= s.cursor.moveTo with
    | .error e => (s, some e)
    | .ok (cursor, gap) => (⟨cursor, s.image.appendList (List.replicate gap 0)⟩, none)
  | .bytes =>
    if st.operands.isEmpty then (s, some (.missingOperand op.mnemonic))
    else s.bytes symbols here st.operands
  | .words =>
    if st.operands.isEmpty then (s, some (.missingOperand op.mnemonic))
    else s.words symbols here st.operands
  | .space =>
    match single op st.operands >>= wordValue symbols here with
    | .error e => (s, some e)
    | .ok count => s.emit (List.replicate count.toNat 0)
  | .instruction mnemonic =>
    match encode symbols here mnemonic st.operands with
    | .error e => (s, some e)
    | .ok code => s.emit code

def statement (symbols : Symbols) (s : Emission) (st : Statement) : Outcome Emission :=
  match st.operation with
  | none => (s, none)
  | some op => s.operation symbols s.cursor.here st op

end Emission

end Cpm80.Assembler

namespace Cpm80

/-! ## The whole -/

/-- What assembling a source gives. There is an image only if nothing was wrong. -/
structure Assembly where
  origin : UInt16
  image : Array UInt8
  symbols : Assembler.Symbols
  diagnostics : List Assembler.Diagnostic

namespace Assembly

open Assembler

def isOk (a : Assembly) : Bool :=
  a.diagnostics.isEmpty

/-- Where a program starts unless its source says otherwise. -/
def defaultOrigin : UInt16 := 0x0100

/-- Assembles the text at `origin`. -/
def ofText (text : List Char) (origin : UInt16) : Assembly :=
  let source := Source.read text
  let (sized, statements, wrongSizes) :=
    pass Sizing.statement ⟨.start origin, .empty⟩ [] [] source.statements
  let (emitted, _, wrongCode) :=
    pass (Emission.statement sized.symbols) ⟨.start origin, #[]⟩ [] [] statements
  let diagnostics := (source.diagnostics ++ wrongSizes ++ wrongCode).mergeSort
    fun x y => x.line ≤ y.line
  { origin := emitted.cursor.origin
    image := if diagnostics.isEmpty then emitted.image else #[]
    symbols := sized.symbols
    diagnostics }

end Assembly

end Cpm80
