import Cpm80.Basic.Program

/-!
# Running a program

A run goes through a snapshot of the program line by line. Executing a line gives an
`Outcome`: the run and the variables after it, what it printed, and where the run goes from
there. A faulty statement keeps the assignments that it made before its fault, but prints
nothing.
-/
namespace Cpm80.Basic

/-- A loop that has been entered and not left yet. -/
structure Loop where
  counter : String
  bound : Float
  step : Float
  /-- The index of the first line of the body. -/
  body : Nat

structure Run where
  lines : Array (Nat × List Char)
  /-- The index of the line to execute. -/
  index : Nat := 0
  /-- Where subroutines return to, the latest call first. -/
  returns : List Nat := []
  /-- The open loops, the innermost first. -/
  loops : List Loop := []

/-- Where a run goes after a statement. -/
inductive Flow
  | next
  | jump (index : Nat)
  | stop
  | input (name : String)
  deriving DecidableEq, Repr

structure Outcome where
  run : Run
  bindings : Variables
  output : List Char := []
  flow : Except Fault Flow

/-- Whether nothing but blanks is left of a statement. -/
def isEnd (s : List Char) : Bool :=
  (peek s).isNone

namespace Run

def ofProgram (p : Program) : Run :=
  { lines := p.entries.toArray }

/-- The line to execute with its number; there is none behind the last line. -/
def line? (r : Run) : Option (Nat × List Char) :=
  r.lines[r.index]?

/-- The index of the line with a number. -/
def find? (r : Run) (number : Nat) : Option Nat :=
  r.lines.findIdx? fun line => line.1 = number

/-- A jump to a line number. -/
def jumpTo (r : Run) (number : Nat) : Except Fault Flow :=
  match r.find? number with
  | some index => .ok (.jump index)
  | none => .error (.undefinedLine number)

/-- The statement had no effect but for where the run goes. -/
def goes (r : Run) (v : Variables) (flow : Except Fault Flow) : Outcome :=
  { run := r, bindings := v, flow }

def fails (r : Run) (v : Variables) (fault : Fault) : Outcome :=
  r.goes v (.error fault)

end Run

/-- A fault if anything follows the statement. -/
def Outcome.endingAt (rest : List Char) (o : Outcome) : Outcome :=
  if isEnd rest then o else { o with flow := .error .badStatement }

/-! ## Statements -/

/-- The columns of a print zone. -/
def zoneWidth : Nat := 14

/-- Fills up to the next zone; a zone that is full is followed by an empty one. Columns are
counted in bytes. -/
def fillZone (out : List Char) : List Char :=
  out ++ List.replicate (zoneWidth - (Utf8.encode out).length % zoneWidth) ' '

def lineEnd : List Char := ['\r', '\n']

/-- Puts the values of a list behind `out`. A semicolon joins values, a comma goes on at the
next zone, and the line ends unless one of these comes last. -/
def printItems (v : Variables) (out : List Char) (endsLine : Bool) (s : List Char) :
    Except Fault (List Char) :=
  if isEnd s then .ok (if endsLine then out ++ lineEnd else out)
  else
    match expression v s with
    | .error e => .error e
    | .ok ⟨x, rest, _⟩ =>
      let out := out ++ x.render
      match eat? ';' rest with
      | some ⟨_, rest', _⟩ => printItems v out false rest'
      | none =>
        match eat? ',' rest with
        | some ⟨_, rest', _⟩ => printItems v (fillZone out) false rest'
        | none => if isEnd rest then .ok (out ++ lineEnd) else .error .badStatement
termination_by s.length

def print (r : Run) (v : Variables) (s : List Char) : Outcome :=
  match printItems v [] true s with
  | .ok out => { run := r, bindings := v, output := out, flow := .ok .next }
  | .error e => r.fails v e

/-- Reads a name, an equals sign and a value of the kind that the name asks for, and assigns
the value. -/
def assignment (v : Variables) (s : List Char) : Except Fault (Variables × List Char) :=
  match identifier? s with
  | none => .error .badStatement
  | some ⟨name, rest, _⟩ =>
    match eat? '=' rest with
    | none => .error .badStatement
    | some ⟨_, rest, _⟩ =>
      match expression v rest with
      | .error e => .error e
      | .ok ⟨x, rest, _⟩ =>
        if isTextName name = x.isText then .ok (v.insert name x, rest)
        else .error .typeMismatch

def assign (r : Run) (v : Variables) (s : List Char) : Outcome :=
  match assignment v s with
  | .error e => r.fails v e
  | .ok (v, rest) => (r.goes v (.ok .next)).endingAt rest

/-- Takes the text in quotes that may stand in front of the variable of an input statement,
with the separator after it. -/
def inputPrompt? (s : List Char) : Option (List Char × List Char) :=
  if peek s = some '"' then
    match string? s with
    | none => none
    | some ⟨text, rest, _⟩ =>
      match eat? ';' rest with
      | some ⟨_, rest', _⟩ => some (text, rest')
      | none => (eat? ',' rest).map fun q => (text, q.rest)
  else some ([], s)

/-- What shows that a value is asked for. -/
def questionMark : List Char := ['?', ' ']

def input (r : Run) (v : Variables) (s : List Char) : Outcome :=
  match inputPrompt? s with
  | none => r.fails v .badStatement
  | some (text, rest) =>
    match identifier? rest with
    | none => r.fails v .badStatement
    | some ⟨name, rest, _⟩ =>
      if isEnd rest then
        { run := r, bindings := v, output := text ++ questionMark, flow := .ok (.input name) }
      else r.fails v .badStatement

def goto (r : Run) (v : Variables) (s : List Char) : Outcome :=
  match lineNumber? s with
  | none => r.fails v .badStatement
  | some (number, rest) =>
    match r.jumpTo number with
    | .error e => r.fails v e
    | .ok flow => (r.goes v (.ok flow)).endingAt rest

def gosub (r : Run) (v : Variables) (s : List Char) : Outcome :=
  goto { r with returns := (r.index + 1) :: r.returns } v s

def goBack (r : Run) (v : Variables) (s : List Char) : Outcome :=
  match r.returns with
  | [] => r.fails v .returnWithoutGosub
  | index :: returns => ({ r with returns }.goes v (.ok (.jump index))).endingAt s

/-- The loops outside the one with a counter; all of them if there is no such loop. -/
def outside (counter : String) (loops : List Loop) : List Loop :=
  match loops.dropWhile fun l => l.counter ≠ counter with
  | [] => loops
  | _ :: outer => outer

/-- Reads a value that has to be a number. -/
def number (v : Variables) (s : List Char) : Except Fault (Float × List Char) :=
  match expression v s with
  | .error e => .error e
  | .ok ⟨x, rest, _⟩ => x.toNumber.map fun x => (x, rest)

/-- Reads the word `word` and a number. -/
def numberAfter (word : List Char) (v : Variables) (s : List Char) :
    Except Fault (Float × List Char) :=
  match keyword? word s with
  | none => .error .badStatement
  | some ⟨_, rest, _⟩ => number v rest

/-- The step of a loop, which is one if it is not given. -/
def loopStep (v : Variables) (s : List Char) : Except Fault (Float × List Char) :=
  match keyword? ['S', 'T', 'E', 'P'] s with
  | none => .ok (1, s)
  | some ⟨_, rest, _⟩ => number v rest

/-- Reads a counter, its first value and its bound and step. -/
def loopHead (v : Variables) (s : List Char) :
    Except Fault (String × Float × Float × Float × List Char) := do
  match identifier? s with
  | none => .error .badStatement
  | some ⟨counter, rest, _⟩ =>
    match eat? '=' rest with
    | none => .error .badStatement
    | some ⟨_, rest, _⟩ =>
      let (first, rest) ← number v rest
      let (bound, rest) ← numberAfter ['T', 'O'] v rest
      let (step, rest) ← loopStep v rest
      if isTextName counter then .error .typeMismatch
      else .ok (counter, first, bound, step, rest)

/-- Enters a loop. An open loop with the same counter is left, with all inside it. -/
def enterLoop (r : Run) (v : Variables) (s : List Char) : Outcome :=
  match loopHead v s with
  | .error e => r.fails v e
  | .ok (counter, first, bound, step, rest) =>
    let loops := ⟨counter, bound, step, r.index + 1⟩ :: outside counter r.loops
    ({ r with loops }.goes (v.insert counter (.number first)) (.ok .next)).endingAt rest

/-- Whether a loop goes on with a value of its counter. -/
def Loop.goesOn (l : Loop) (x : Float) : Bool :=
  if l.step < 0 then x ≥ l.bound else x ≤ l.bound

/-- Counts on in the first of `loops` and repeats or leaves it. -/
def countOn (r : Run) (v : Variables) (rest : List Char) (loops : List Loop) : Outcome :=
  match loops with
  | [] => r.fails v .nextWithoutFor
  | l :: outer =>
    match (v.value l.counter).toNumber with
    | .error e => r.fails v e
    | .ok x =>
      let v := v.insert l.counter (.number (x + l.step))
      (if l.goesOn (x + l.step) then { r with loops := l :: outer }.goes v (.ok (.jump l.body))
        else { r with loops := outer }.goes v (.ok .next)).endingAt rest

/-- Ends the body of the innermost loop, or of the loop with the given counter, which leaves
all inside it. -/
def endLoop (r : Run) (v : Variables) (s : List Char) : Outcome :=
  match identifier? s with
  | none => countOn r v s r.loops
  | some ⟨counter, rest, _⟩ =>
    countOn r v rest (r.loops.dropWhile fun l => l.counter ≠ counter)

/-- What the first word of a statement makes of it. -/
inductive Verb
  | print
  | assign
  | input
  | condition
  | goto
  | gosub
  | goBack
  | enterLoop
  | endLoop
  | stop
  deriving DecidableEq, Repr

/-- The verb of a word; a word that is none names the variable of an assignment. -/
def Verb.ofWord? : String → Option Verb
  | "PRINT" => some print
  | "LET" => some assign
  | "INPUT" => some input
  | "IF" => some condition
  | "GOTO" => some goto
  | "GOSUB" => some gosub
  | "RETURN" => some goBack
  | "FOR" => some enterLoop
  | "NEXT" => some endLoop
  | "END" | "STOP" => some stop
  | _ => none

def isRemark (code : List Char) : Bool :=
  Text.upper ((Text.trimStart code).take 3) = ['R', 'E', 'M']

theorem length_trim (s : List Char) : (Text.trim s).length ≤ s.length := by
  have h (t : List Char) : (Text.trimEnd t).length ≤ t.length := by
    have := length_dropWhile_le Text.isBlank t.reverse
    simpa [Text.trimEnd] using this
  exact Nat.le_trans (h _) (length_dropWhile_le _ _)

/-- Executes a statement. The branch of a condition that holds is a line number or another
statement. -/
def execute (r : Run) (v : Variables) (code : List Char) : Outcome :=
  if isRemark code then r.goes v (.ok .next)
  else
    match eat? '?' code with
    | some ⟨_, rest, _⟩ => print r v rest
    | none =>
      match identifier? code with
      | none => (r.goes v (.ok .next)).endingAt code
      | some ⟨word, rest, _⟩ =>
        match Verb.ofWord? word with
        | none => assign r v code
        | some .print => print r v rest
        | some .assign => assign r v rest
        | some .input => input r v rest
        | some .goto => goto r v rest
        | some .gosub => gosub r v rest
        | some .goBack => goBack r v rest
        | some .enterLoop => enterLoop r v rest
        | some .endLoop => endLoop r v rest
        | some .stop => (r.goes v (.ok .stop)).endingAt rest
        | some .condition =>
          match expression v rest with
          | .error e => r.fails v e
          | .ok ⟨x, rest', _⟩ =>
            match keyword? ['T', 'H', 'E', 'N'] rest' with
            | none => r.fails v .badStatement
            | some ⟨_, rest'', _⟩ =>
              have := length_trim rest''
              if x.isTrue then
                match Numeral.bounded? maxLineNumber (Text.trim rest'') with
                | some number => r.goes v (r.jumpTo number)
                | none => execute r v (Text.trim rest'')
              else r.goes v (.ok .next)
termination_by code.length

end Cpm80.Basic
