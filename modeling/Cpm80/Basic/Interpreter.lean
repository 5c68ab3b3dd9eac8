import Cpm80.Basic.Run
import Cpm80.Station

/-!
# The BASIC interpreter

The interpreter is given one line of input at a time. A numbered line is entered into the
program, any other line is a command. A run that comes to an input statement waits for the
next line; every call executes at most as many lines of the program as its budget allows.
-/
namespace Cpm80.Basic

/-- What the interpreter does after a line of input. -/
inductive Status
  | ready
  | awaitingInput
  | quit
  /-- A file had to be found on the current drive, and there are no drives. -/
  | noDrive
  deriving DecidableEq, Repr

structure Interpreter where
  program : Program := .empty
  bindings : Variables := .empty
  /-- The run that waits for input, with the variable it is for. -/
  waiting : Option (Run × String) := none

/-- What shows that a command is asked for. -/
def prompt : String := "] "

namespace Interpreter

def banner : List String :=
  ["BASIC Interpreter v1.0", "Type LIST to list program, RUN to execute", ""]

def help : List String :=
  ["Commands:",
    "  NEW         - Clear program",
    "  LIST [n-m]  - List program",
    "  RUN         - Run program",
    "  CLR         - Clear variables",
    "  SAVE file   - Save program",
    "  LOAD file   - Load program",
    "  QUIT        - Exit BASIC",
    "",
    "Statements:",
    "  PRINT       - Print value",
    "  LET         - Assign variable",
    "  INPUT       - Get input",
    "  IF...THEN   - Conditional",
    "  GOTO        - Jump to line",
    "  GOSUB/RETURN- Subroutine",
    "  FOR...NEXT  - Loop",
    "  END/STOP    - End program"]

/-- A new interpreter greets the user. -/
def start (s : Station) : Interpreter × Station :=
  ({}, (s.printLines banner).print prompt)

/-- The value of a variable, by its name in any letters. -/
def value? (i : Interpreter) (name : String) : Option Value :=
  i.bindings.get? (String.ofList (Text.upper name.toList))

def isRunning (i : Interpreter) : Bool :=
  i.waiting.isSome

/-! ## Runs -/

/-- Ends a run: the variables stay, and a command is asked for. -/
def endRun (i : Interpreter) (c : Console) : Interpreter × Console × Status :=
  ({ i with waiting := none }, c.print prompt, .ready)

/-- Goes on with a run for up to `budget` lines. -/
def resume : (budget : Nat) → Interpreter → Run → Console → Interpreter × Console × Status
  | 0, i, r, c =>
    match r.line? with
    | none => i.endRun c
    | some (number, _) => i.endRun (c.printLine ("?BREAK IN " ++ number.repr))
  | budget + 1, i, r, c =>
    match r.line? with
    | none => i.endRun c
    | some (number, code) =>
      let o := execute r i.bindings code
      let i := { i with bindings := o.bindings }
      let c := c.putBytes (Utf8.encode o.output)
      match o.flow with
      | .ok .next => resume budget i { o.run with index := o.run.index + 1 } c
      | .ok (.jump index) => resume budget i { o.run with index } c
      | .ok .stop => i.endRun c
      | .ok (.input name) =>
        ({ i with waiting := some ({ o.run with index := o.run.index + 1 }, name) }, c,
          .awaitingInput)
      | .error e => i.endRun (c.printLine ("?" ++ e.message ++ " IN " ++ number.repr))

/-- Runs the program from its first line, without variables. -/
def run (budget : Nat) (i : Interpreter) (c : Console) : Interpreter × Console × Status :=
  if i.program.isEmpty then (i, (c.printLine "No program to run").print prompt, .ready)
  else resume budget { i with bindings := .empty } (.ofProgram i.program) c

/-- The value that a reply has for a variable: any text for one, only a number for another. -/
def reply? (name : String) (line : List Char) : Option Value :=
  if isTextName name then some (.text line) else (Decimal.typed? (Text.trim line)).map .number

/-- Takes a line as the reply that a run waits for, or asks for it again. -/
def takeReply (budget : Nat) (i : Interpreter) (r : Run) (name : String) (line : List Char)
    (c : Console) : Interpreter × Console × Status :=
  match reply? name line with
  | none =>
    (i, (c.printLine "?REDO FROM START").putBytes (Utf8.encode questionMark), .awaitingInput)
  | some x =>
    resume budget { i with bindings := i.bindings.insert name x, waiting := none } r c

/-! ## Commands -/

/-- The file that an argument names, with quotes around it or not. -/
def fileName (argument : List Char) : String :=
  let bare := (argument.dropWhile (· = '"')).reverse.dropWhile (· = '"')
  let name := Text.upper bare.reverse
  String.ofList (if name.contains '.' then name else name ++ ['.', 'B', 'A', 'S'])

def countOf (p : Program) (verb between : String) (name : String) : String :=
  verb ++ " " ++ p.size.repr ++ " lines " ++ between ++ " " ++ name

/-- Asks for the next line. -/
def asking (i : Interpreter) (s : Station) : Interpreter × Station × Status :=
  (i, s.print prompt, .ready)

def save (i : Interpreter) (argument : List Char) (s : Station) :
    Interpreter × Station × Status :=
  if argument.isEmpty then i.asking (s.printLine "?SYNTAX ERROR")
  else
    let name := fileName argument
    let ⟨m, d, c, u⟩ := s
    let (d, result) := d.saveFile d.current name i.program.toFile
    let s : Station := ⟨m, d, c, u⟩
    match result with
    | some none => i.asking (s.printLine (countOf i.program "Saved" "to" name))
    | some (some e) => i.asking (s.printLine ("?" ++ e.message))
    | none => (i, s, .noDrive)

/-- Loads a program over the old one and forgets the variables; a file that is not there
changes nothing. -/
def load (i : Interpreter) (argument : List Char) (s : Station) :
    Interpreter × Station × Status :=
  let name := fileName argument
  match s.disk.drive? s.disk.current with
  | none => (i, s, .noDrive)
  | some drive =>
    match drive.get? name with
    | none => i.asking (s.printLine "?FILE NOT FOUND")
    | some content =>
      let program := Program.ofFile content
      { i with program, bindings := .empty }.asking
        (s.printLine (countOf program "Loaded" "from" name))

inductive Command
  | new
  | list
  | run
  | clear
  | save
  | load
  | help
  | quit
  deriving DecidableEq, Repr

/-- The command of a word in upper case. -/
def Command.ofWord? (word : List Char) : Option Command :=
  match String.ofList word with
  | "NEW" => some new
  | "LIST" => some list
  | "RUN" => some run
  | "CLR" => some clear
  | "SAVE" => some save
  | "LOAD" => some load
  | "HELP" => some help
  | "QUIT" | "EXIT" => some quit
  | _ => none

def perform (budget : Nat) (command : Command) (argument : List Char) (i : Interpreter)
    (s : Station) : Interpreter × Station × Status :=
  match command with
  | .new =>
    { i with program := .empty, bindings := .empty }.asking (s.printLine "Program cleared")
  | .list =>
    i.asking ((i.program.listing argument).foldl
      (fun s line => s.printLine (String.ofList line)) s)
  | .run =>
    let ⟨m, d, c, u⟩ := s
    let (i, c, status) := run budget i c
    (i, ⟨m, d, c, u⟩, status)
  | .clear => { i with bindings := .empty }.asking (s.printLine "Variables cleared")
  | .save => i.save argument s
  | .load => i.load argument s
  | .help => i.asking (s.printLines help)
  | .quit => (i, s, .quit)

/-- Obeys a line at the prompt. -/
def obey (budget : Nat) (i : Interpreter) (line : List Char) (s : Station) :
    Interpreter × Station × Status :=
  let line := Text.trim line
  if isNumbered line then
    match i.program.enter? line with
    | some program => { i with program }.asking s
    | none => i.asking (s.printLine "?SYNTAX ERROR")
  else if line.isEmpty then i.asking s
  else
    let (word, rest) := Text.splitWord line
    match Command.ofWord? (Text.upper word) with
    | some command => perform budget command (Text.trim rest) i s
    | none => i.asking (s.printLine "?SYNTAX ERROR")

/-- Takes one line of input. -/
def handle (budget : Nat) (i : Interpreter) (line : List Char) (s : Station) :
    Interpreter × Station × Status :=
  match i.waiting with
  | none => obey budget i line s
  | some (r, name) =>
    let ⟨m, d, c, u⟩ := s
    let (i, c, status) := takeReply budget i r name line c
    (i, ⟨m, d, c, u⟩, status)

end Interpreter

end Cpm80.Basic
