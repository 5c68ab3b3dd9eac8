import Cpm80.Proofs.Checked.Statements
import Cpm80.Proofs.OpenSessions

/-!
# The interpreter, with every access checked

A numbered line is cut behind its number, a listing goes from one line number up to another, a
program is saved to the current drive and loaded from there, and a run takes its lines by their
index. Each of these accesses is checked. If the current drive is one of the drives, every line of
input passes the checks, whether it is a command, a line of a program or the reply to an input
statement.
-/
namespace Cpm80.Basic

open Text Cpm80.Checked

/-! ## Programs -/

namespace Program.Checked

def enter? (p : Program) (line : List Char) : Option (Option Program) := do
  let digits := (placeOf? (fun c => !c.isDigit) line).getD (size line)
  let number ← upTo? digits line
  match Numeral.bounded? maxLineNumber number with
  | none => some none
  | some n => do
    let rest ← from? digits line
    let code := trim rest
    some (some (if code.isEmpty then p.erase n else p.insert n code))

/-- The lines between two numbers, of which the first must not be above the last. -/
def between (p : Program) (first last : Nat) : Option (List (Nat × List Char)) :=
  if first ≤ last then some (p.entries.filter fun line => first ≤ line.1 && line.1 ≤ last)
  else none

def listing (p : Program) (argument : List Char) : Option (List (List Char)) := do
  let (first, last) := listedNumbers argument
  let lines ← between p first (max first last)
  some (lines.map lineText)

def enterFromFile (p : Program) (line : List Char) : Option Program :=
  let line := trim line
  if isNumbered line then (enter? p line).map fun entered => entered.getD p else some p

def ofFile (content : Array UInt8) : Option Program :=
  (TextFile.lines content).foldlM enterFromFile .empty

variable {p : Program}

theorem enter?_eq (p : Program) (line : List Char) : enter? p line = some (p.enter? line) := by
  have hparts : line.takeWhile Char.isDigit ++ line.dropWhile Char.isDigit = line :=
    List.takeWhile_append_dropWhile
  have hnumber := upTo?_size (line.takeWhile Char.isDigit) (line.dropWhile Char.isDigit)
  have hrest := from?_size (line.takeWhile Char.isDigit) (line.dropWhile Char.isDigit)
  rw [hparts] at hnumber hrest
  simp only [enter?, Program.enter?, getD_placeOf?, Bool.not_not, hnumber, hrest,
    Option.bind_eq_bind, Option.bind_some]
  cases Numeral.bounded? maxLineNumber (line.takeWhile Char.isDigit) <;> rfl

theorem listing_eq (p : Program) (argument : List Char) :
    listing p argument = some (p.listing argument) := by
  rw [listing, Program.listing]
  dsimp only
  rw [between, if_pos (Nat.le_max_left _ _)]
  rfl

theorem enterFromFile_eq (p : Program) (line : List Char) :
    enterFromFile p line = some (p.enterFromFile line) := by
  simp only [enterFromFile, Program.enterFromFile, enter?_eq, Option.map_some, apply_ite some]

theorem ofFile_eq (content : Array UInt8) : ofFile content = some (Program.ofFile content) := by
  have hstep : enterFromFile = fun p line => some (Program.enterFromFile p line) :=
    funext fun p => funext (enterFromFile_eq p)
  rw [ofFile, Program.ofFile, hstep, foldlM_some]

end Program.Checked

/-! ## Runs -/

namespace Interpreter.Checked

def resume : (budget : Nat) → Interpreter → Run → Console →
    Option (Interpreter × Console × Status)
  | 0, i, r, c =>
    if r.index < r.lines.size then do
      let (number, _) ← r.lines[r.index]?
      some (i.endRun (c.printLine ("?BREAK IN " ++ number.repr)))
    else some (i.endRun c)
  | budget + 1, i, r, c =>
    if r.index < r.lines.size then do
      let (number, code) ← r.lines[r.index]?
      let o ← Basic.Checked.execute r i.bindings (code.length + 1) code
      let i := { i with bindings := o.bindings }
      let c := c.putBytes (Utf8.encode o.output)
      match o.flow with
      | .ok .next => resume budget i { o.run with index := o.run.index + 1 } c
      | .ok (.jump index) => resume budget i { o.run with index } c
      | .ok .stop => some (i.endRun c)
      | .ok (.input name) =>
        some ({ i with waiting := some ({ o.run with index := o.run.index + 1 }, name) }, c,
          .awaitingInput)
      | .error e => some (i.endRun (c.printLine ("?" ++ e.message ++ " IN " ++ number.repr)))
    else some (i.endRun c)

def run (budget : Nat) (i : Interpreter) (c : Console) :
    Option (Interpreter × Console × Status) :=
  if i.program.isEmpty then
    some (i, (c.printLine "No program to run").print prompt, .ready)
  else resume budget { i with bindings := .empty } (.ofProgram i.program) c

def takeReply (budget : Nat) (i : Interpreter) (r : Run) (name : String) (line : List Char)
    (c : Console) : Option (Interpreter × Console × Status) :=
  match reply? name line with
  | none =>
    some (i, (c.printLine "?REDO FROM START").putBytes (Utf8.encode questionMark), .awaitingInput)
  | some x => resume budget { i with bindings := i.bindings.insert name x, waiting := none } r c

/-! ## Commands -/

def save (i : Interpreter) (argument : List Char) (s : Station) :
    Option (Interpreter × Station × Status) :=
  if argument.isEmpty then some (i.asking (s.printLine "?SYNTAX ERROR"))
  else do
    let _ ← s.disk.drives[s.disk.current]?
    some (i.save argument s)

def load (i : Interpreter) (argument : List Char) (s : Station) :
    Option (Interpreter × Station × Status) := do
  let name := fileName argument
  let drive ← s.disk.drives[s.disk.current]?
  match drive.get? name with
  | none => some (i.asking (s.printLine "?FILE NOT FOUND"))
  | some content => do
    let program ← Program.Checked.ofFile content
    some ({ i with program, bindings := .empty }.asking
      (s.printLine (countOf program "Loaded" "from" name)))

def perform (budget : Nat) (command : Command) (argument : List Char) (i : Interpreter)
    (s : Station) : Option (Interpreter × Station × Status) :=
  match command with
  | .list => do
    let lines ← Program.Checked.listing i.program argument
    some (i.asking (lines.foldl (fun s line => s.printLine (String.ofList line)) s))
  | .run => do
    let ⟨m, d, c, u⟩ := s
    let (i, c, status) ← run budget i c
    some (i, ⟨m, d, c, u⟩, status)
  | .save => save i argument s
  | .load => load i argument s
  | .new | .clear | .help | .quit => some (i.perform budget command argument s)

def obey (budget : Nat) (i : Interpreter) (line : List Char) (s : Station) :
    Option (Interpreter × Station × Status) := do
  let line := trim line
  if isNumbered line then do
    match ← Program.Checked.enter? i.program line with
    | some program => some ({ i with program }.asking s)
    | none => some (i.asking (s.printLine "?SYNTAX ERROR"))
  else if line.isEmpty then some (i.asking s)
  else do
    let (word, rest) ← Text.Checked.splitWord line
    match Command.ofWord? (upper word) with
    | some command => perform budget command (trim rest) i s
    | none => some (i.asking (s.printLine "?SYNTAX ERROR"))

def handle (budget : Nat) (i : Interpreter) (line : List Char) (s : Station) :
    Option (Interpreter × Station × Status) :=
  match i.waiting with
  | none => obey budget i line s
  | some (r, name) => do
    let ⟨m, d, c, u⟩ := s
    let (i, c, status) ← takeReply budget i r name line c
    some (i, ⟨m, d, c, u⟩, status)

/-! ## What is done -/

theorem resume_eq (budget : Nat) (i : Interpreter) (r : Run) (c : Console) :
    resume budget i r c = some (Interpreter.resume budget i r c) := by
  induction budget generalizing i r c with
  | zero =>
    rw [resume, Interpreter.resume, Run.line?]
    cases hline : r.lines[r.index]? with
    | none => rw [if_neg (Nat.not_lt.mpr (Array.getElem?_eq_none_iff.mp hline))]
    | some line =>
      obtain ⟨hindex, -⟩ := Array.getElem?_eq_some_iff.mp hline
      rw [if_pos hindex]
      rfl
  | succ budget ih =>
    rw [resume, Interpreter.resume, Run.line?]
    cases hline : r.lines[r.index]? with
    | none => rw [if_neg (Nat.not_lt.mpr (Array.getElem?_eq_none_iff.mp hline))]
    | some line =>
      obtain ⟨hindex, -⟩ := Array.getElem?_eq_some_iff.mp hline
      obtain ⟨number, code⟩ := line
      simp only [if_pos hindex, Option.bind_eq_bind, Option.bind_some,
        Basic.Checked.execute_eq r i.bindings (Nat.lt_succ_self code.length)]
      cases (Basic.execute r i.bindings code).flow with
      | error e => rfl
      | ok flow =>
        cases flow with
        | next | jump index => exact ih _ _ _
        | stop | input name => rfl

theorem run_eq (budget : Nat) (i : Interpreter) (c : Console) :
    run budget i c = some (i.run budget c) := by
  rw [run, Interpreter.run, resume_eq, ← apply_ite some]

theorem takeReply_eq (budget : Nat) (i : Interpreter) (r : Run) (name : String)
    (line : List Char) (c : Console) :
    takeReply budget i r name line c = some (i.takeReply budget r name line c) := by
  rw [takeReply, Interpreter.takeReply]
  cases reply? name line with
  | none => rfl
  | some x => exact resume_eq budget _ r c

section

variable {s : Station}

theorem save_eq (h : s.disk.Equipped) (i : Interpreter) (argument : List Char) :
    save i argument s = some (i.save argument s) := by
  rw [save]
  split
  case isTrue hempty => rw [Interpreter.save, if_pos hempty]
  case isFalse =>
    rw [List.getElem?_eq_getElem h.current]
    rfl

theorem load_eq (h : s.disk.Equipped) (i : Interpreter) (argument : List Char) :
    load i argument s = some (i.load argument s) := by
  obtain ⟨drive, hdrive⟩ := h.drive?
  have hcurrent : s.disk.drives[s.disk.current]? = some drive := hdrive
  rw [load, Interpreter.load, hcurrent, hdrive]
  dsimp only
  rw [Option.bind_eq_bind, Option.bind_some]
  cases drive.get? (fileName argument) with
  | none => rfl
  | some content =>
    dsimp only
    rw [Program.Checked.ofFile_eq]
    rfl

theorem perform_eq (h : s.disk.Equipped) (budget : Nat) (command : Command)
    (argument : List Char) (i : Interpreter) :
    perform budget command argument i s = some (i.perform budget command argument s) := by
  cases command with
  | list =>
    rw [perform, Program.Checked.listing_eq]
    rfl
  | run =>
    obtain ⟨m, d, c, u⟩ := s
    rw [perform, run_eq]
    rfl
  | save => exact save_eq h i argument
  | load => exact load_eq h i argument
  | new | clear | help | quit => rfl

theorem obey_eq (h : s.disk.Equipped) (budget : Nat) (i : Interpreter) (line : List Char) :
    obey budget i line s = some (i.obey budget line s) := by
  rw [obey, Interpreter.obey]
  dsimp only
  split
  · rw [Program.Checked.enter?_eq, Option.bind_eq_bind, Option.bind_some]
    cases i.program.enter? (trim line) <;> rfl
  · split
    · rfl
    · rw [Text.Checked.splitWord_eq, Option.bind_eq_bind, Option.bind_some]
      cases Command.ofWord? (upper (splitWord (trim line)).1) with
      | none => rfl
      | some command => exact perform_eq h budget command _ i

/-- Whatever BASIC is given, as a command, as a line of a program or as a reply, no access
fails. -/
theorem handle_eq (h : s.disk.Equipped) (budget : Nat) (i : Interpreter) (line : List Char) :
    handle budget i line s = some (i.handle budget line s) := by
  rw [handle, Interpreter.handle]
  cases i.waiting with
  | none => exact obey_eq h budget i line
  | some w =>
    obtain ⟨m, d, c, u⟩ := s
    dsimp only
    rw [takeReply_eq]
    rfl

end

end Interpreter.Checked

end Cpm80.Basic
