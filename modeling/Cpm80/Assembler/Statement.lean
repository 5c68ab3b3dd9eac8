import Cpm80.Assembler.Expression
import Cpm80.Text.Blank

/-!
# Source lines

A line is an optional label, an optional operation with operands, and an optional comment.
Semicolons, commas and colons inside quotes are plain characters. A label ends in a colon;
an `EQU` may name its symbol in front instead.
-/
namespace Cpm80.Assembler

inductive Operation
  /-- Ends the source. -/
  | finish
  | equate
  | origin
  | bytes
  | words
  | space
  /-- Anything else; whether it is an instruction is decided when it is assembled. -/
  | instruction (mnemonic : String)
  deriving DecidableEq, Repr

def Operation.ofMnemonic (mnemonic : String) : Operation :=
  match mnemonic with
  | "END" => finish
  | "EQU" => equate
  | "ORG" => origin
  | "DB" => bytes
  | "DW" => words
  | "DS" => space
  | _ => instruction mnemonic

def Operation.mnemonic : Operation → String
  | finish => "END"
  | equate => "EQU"
  | origin => "ORG"
  | bytes => "DB"
  | words => "DW"
  | space => "DS"
  | instruction m => m

structure Statement where
  label : Option String := none
  operation : Option Operation := none
  operands : List (List Char) := []
  deriving DecidableEq, Repr

def isSymbolStart (c : Char) : Bool :=
  c.isAlpha || c = '_' || c = '?' || c = '@'

def isSymbolChar (c : Char) : Bool :=
  c.isAlphanum || c = '_' || c = '?' || c = '@'

def isIdentifier : List Char → Bool
  | [] => false
  | c :: rest => isSymbolStart c && rest.all isSymbolChar

/-- The text before the comment, if there is one, after the characters `done`, which are in
reverse. -/
def withoutCommentFrom (quote : Option Char) (done : List Char) : List Char → List Char
  | [] => done.reverse
  | c :: rest =>
    if quote.isNone ∧ c = ';' then done.reverse
    else withoutCommentFrom (quoteAfter quote c) (c :: done) rest

def withoutComment (line : List Char) : List Char :=
  withoutCommentFrom none [] line

/-- Cuts at the commas outside quotes, after the operands `done` and the beginning `current`
of one more, both in reverse. -/
def splitOperandsFrom (quote : Option Char) (current : List Char) (done : List (List Char)) :
    List Char → List (List Char)
  | [] => (Text.trim current.reverse :: done).reverse
  | c :: rest =>
    if quote.isNone ∧ c = ',' then
      splitOperandsFrom none [] (Text.trim current.reverse :: done) rest
    else splitOperandsFrom (quoteAfter quote c) (c :: current) done rest

def splitOperands (text : List Char) : List (List Char) :=
  let text := Text.trim text
  if text.isEmpty then [] else splitOperandsFrom none [] [] text

/-- The label in front of the first colon and the text after it, if what is in front could
be meant as a label: no blanks and no quotes. -/
def labelPart? (text : List Char) : Option (List Char × List Char) :=
  match text.dropWhile (· ≠ ':') with
  | [] => none
  | _ :: rest =>
    let candidate := text.takeWhile (· ≠ ':')
    if candidate.any fun c => Text.isBlank c || Text.isQuote c then none
    else some (candidate, rest)

def labelOf (text : List Char) : Except Fault String :=
  if isIdentifier text then .ok (String.ofList (Text.upper text))
  else .error (.invalidLabel (String.ofList text))

/-- The operation in a text without a label in front. -/
def Statement.readOperation (label : Option String) (text : List Char) :
    Except Fault Statement :=
  let (first, after) := Text.splitWord text
  if first.isEmpty then .ok { label }
  else
    let (second, afterSecond) := Text.splitWord after
    if label.isNone ∧ Text.upper second = ['E', 'Q', 'U'] then do
      let name ← labelOf first
      .ok ⟨some name, some .equate, splitOperands afterSecond⟩
    else
      let mnemonic := String.ofList (Text.upper first)
      .ok ⟨label, some (.ofMnemonic mnemonic), splitOperands after⟩

/-- Reads a line; nothing for a line without a statement. -/
def Statement.read (line : List Char) : Except Fault (Option Statement) :=
  let text := Text.trim (withoutComment line)
  if text.isEmpty then .ok none
  else
    match labelPart? text with
    | some (candidate, rest) => do
      let label ← labelOf candidate
      let s ← Statement.readOperation (some label) rest
      .ok (some s)
    | none => do
      let s ← Statement.readOperation none text
      .ok (some s)

/-- A source: its statements with their line numbers, up to the end of the source, and what
is wrong with the lines that hold none. -/
structure Source where
  statements : List (Nat × Statement)
  diagnostics : List Diagnostic
  deriving DecidableEq, Repr

/-- The source with its lists turned round. -/
def Source.reversed (s : Source) : Source :=
  ⟨s.statements.reverse, s.diagnostics.reverse⟩

/-- Reads lines from number `line` on, after a source read so far, which is in reverse. -/
def Source.readFrom (line : Nat) (done : Source) : List (List Char) → Source
  | [] => done.reversed
  | text :: rest =>
    match Statement.read text with
    | .ok none => readFrom (line + 1) done rest
    | .ok (some s) =>
      let done := { done with statements := (line, s) :: done.statements }
      if s.operation = some .finish then done.reversed
      else readFrom (line + 1) done rest
    | .error e => readFrom (line + 1) { done with diagnostics := ⟨line, e⟩ :: done.diagnostics } rest

def Source.read (text : List Char) : Source :=
  readFrom 1 ⟨[], []⟩ (Text.lines text)

end Cpm80.Assembler
