import Cpm80.Computer
import Cpm80.CommandLine
import Cpm80.LineEditor
import Cpm80.Basic.Interpreter

/-!
# Sessions

A session is a computer in the hands of a user. What the user types goes to the command line,
or to the editor or to BASIC while one of them is open. Programs run for a number of cycles
at a time and go on later; one that was started from the command line gives the prompt back
when it halts.
-/
namespace Cpm80

/-- Why a session has ended. -/
inductive Ending
  /-- The user asked for it. -/
  | asked
  /-- The letter of a drive had to be shown that has none. -/
  | noLetter
  /-- A file had to be found without any drive. -/
  | noDrive
  deriving DecidableEq, Repr

/-- Who reads the next line. -/
inductive Mode
  | commandLine
  | editor (e : LineEditor)
  | basic (i : Basic.Interpreter)
  | exited (why : Ending)

structure Session where
  computer : Computer
  /-- The cycles used since the session began or was reset. -/
  cycles : Nat := 0
  instructions : Nat := 0
  /-- Whether the program stopped because it waits for input. -/
  awaitingInput : Bool := false
  /-- Whether the program owes the command line a prompt. -/
  owesPrompt : Bool := false
  mode : Mode := .commandLine

/-- Why a run stopped. -/
inductive RunOutcome
  | halted
  | awaitingInput
  | cycleLimit
  deriving DecidableEq, Repr

structure RunReport where
  cycles : Nat
  instructions : Nat
  halted : Bool
  outcome : RunOutcome
  deriving DecidableEq, Repr

namespace Session

def onComputer (f : Computer → Computer) : Session → Session
  | ⟨c, n, i, a, o, m⟩ => ⟨f c, n, i, a, o, m⟩

def onStation (f : Station → Station) : Session → Session
  | ⟨⟨p, s⟩, n, i, a, o, m⟩ => ⟨⟨p, f s⟩, n, i, a, o, m⟩

def onConsole (f : Console → Console) : Session → Session :=
  onStation fun s => s.onConsole f

def hasExited (s : Session) : Bool :=
  match s.mode with
  | .exited _ => true
  | _ => false

/-- Shows the prompt; without one the session ends. -/
def printPrompt : Session → Session
  | ⟨⟨p, st⟩, n, i, w, o, m⟩ =>
    match CommandLine.prompt? st.disk with
    | some prompt => ⟨⟨p, st.print prompt⟩, n, i, w, o, m⟩
    | none => ⟨⟨p, st⟩, n, i, w, o, .exited .noLetter⟩

/-- A new session shows the prompt. -/
def ofDrives (drives : List Drive) : Session :=
  printPrompt { computer := .ofDrives drives }

/-- Resets the computer and goes back to the command line, but not from an exit. -/
def reset : Session → Session
  | ⟨c, _, _, _, _, .exited why⟩ => { computer := c.reset, mode := .exited why }
  | ⟨c, _, _, _, _, _⟩ => { computer := c.reset }

/-! ## Programs -/

/-- Puts bytes into memory, if they fit. -/
def load (a : UInt16) (bytes : List UInt8) : Session → Session × Option OutOfBounds
  | ⟨⟨p, m, d, c, u⟩, n, i, w, o, mode⟩ =>
    match m.load a bytes with
    | .ok m => (⟨⟨p, m, d, c, u⟩, n, i, w, o, mode⟩, none)
    | .error e => (⟨⟨p, m, d, c, u⟩, n, i, w, o, mode⟩, some e)

def dump (s : Session) (a : UInt16) (length : Nat) : Except OutOfBounds (List UInt8) :=
  s.computer.station.memory.dump a length

/-- Assembles a source text and loads the image if there are no faults. -/
def assemble (source : List Char) (origin : UInt16) (s : Session) :
    Session × Except OutOfBounds Assembly :=
  let a := Assembly.ofText source origin
  let s := s.onStation fun s => s.onUsage fun u => u.addAssembly a.isOk
  if a.isOk then
    match s.load a.origin a.image.toList with
    | (s, none) => (s, .ok a)
    | (s, some e) => (s, .error e)
  else (s, .ok a)

def start (entry : UInt16) : Session → Session
  | ⟨c, n, i, _, _, m⟩ => ⟨c.start entry, n, i, false, false, m⟩

/-- Gives the prompt back if a program that owes it has halted. -/
def settlePrompt (halted : Bool) (s : Session) : Session :=
  if halted ∧ s.owesPrompt then
    printPrompt ({ s with owesPrompt := false }.onConsole Console.endLine)
  else s

/-- Goes on with the program until `budget` cycles are used up, it halts or it waits for
input. -/
def resume (budget : Nat) : Session → Session × RunReport
  | ⟨c, n, i, _, o, m⟩ =>
    let (⟨p, s⟩, t, waiting) := c.run budget {}
    let s := s.onUsage fun u => u.addRun t.instructions t.cycles
    let outcome := if p.halted then RunOutcome.halted
      else if waiting then .awaitingInput
      else .cycleLimit
    (settlePrompt p.halted ⟨⟨p, s⟩, n + t.cycles, i + t.instructions, waiting, o, m⟩,
      ⟨t.cycles, t.instructions, p.halted, outcome⟩)

/-- Runs a program from an address, or goes on with the one there is. -/
def run (entry : Option UInt16) (budget : Nat) (s : Session) : Session × RunReport :=
  match entry with
  | some entry => (s.start entry).resume budget
  | none => s.resume budget

/-- One instruction or system call, and its cost, which is zero if nothing was done. -/
def step : Session → Session × Nat
  | ⟨c, n, i, w, o, m⟩ =>
    match c.advance with
    | (c, .executed cost) => (⟨c, n + cost, i + 1, false, o, m⟩, cost)
    | (c, .waiting) => (⟨c, n, i, true, o, m⟩, 0)
    | (c, .halted) => (⟨c, n, i, w, o, m⟩, 0)

/-! ## The user -/

/-- Types bytes. -/
def type (bytes : List UInt8) : Session → Session :=
  onConsole fun c => c.type bytes

/-- Types a line and ends it. -/
def typeLine (line : List Char) : Session → Session :=
  onConsole fun c => (c.type (Utf8.encode line)).type [carriageReturn]

/-- The bytes shown since the last look. -/
def takeBytes : Session → List UInt8 × Session
  | ⟨⟨p, m, d, c, u⟩, n, i, w, o, mode⟩ =>
    let (shown, c) := c.takeOutput
    (shown, ⟨⟨p, m, d, c, u⟩, n, i, w, o, mode⟩)

/-- The text shown since the last look. -/
def takeOutput (s : Session) : List Char × Session :=
  let (shown, s) := s.takeBytes
  (Utf8.decodeLenient shown, s)

/-- What has been used since the last look. -/
def takeUsage : Session → Usage × Session
  | ⟨⟨p, m, d, c, u⟩, n, i, w, o, mode⟩ => (u, ⟨⟨p, m, d, c, .none⟩, n, i, w, o, mode⟩)

/-- Carries out what a command line asks for. -/
def follow (outcome : CommandOutcome) (budget : Nat) (s : Session) :
    Session × Option RunReport :=
  match outcome with
  | .done => (s.printPrompt, none)
  | .noLetter => ({ s with mode := .exited .noLetter }, none)
  | .run entry =>
    let s := { s.start entry with owesPrompt := true }
    let (s, report) := s.resume budget
    (s, some report)
  | .edit drive name =>
    let ⟨⟨p, st⟩, n, i, w, o, _⟩ := s
    let (e, st) := LineEditor.start drive name st
    (⟨⟨p, st⟩, n, i, w, o, .editor e⟩, none)
  | .basic =>
    let ⟨⟨p, st⟩, n, i, w, o, _⟩ := s
    let (b, st) := Basic.Interpreter.start st
    (⟨⟨p, st⟩, n, i, w, o, .basic b⟩, none)
  | .exit => ({ s.onConsole (fun c => c.printLine "GOODBYE") with mode := .exited .asked }, none)

/-- Gives a line to whoever reads. The budget is in cycles for a program that the line starts
and in lines for BASIC. -/
def command (line : List Char) (budget : Nat) : Session → Session × Option RunReport
  | ⟨⟨p, st⟩, n, i, w, o, .commandLine⟩ =>
    let (st, outcome) := CommandLine.execute line st
    follow outcome budget ⟨⟨p, st⟩, n, i, w, o, .commandLine⟩
  | ⟨⟨p, st⟩, n, i, w, o, .editor e⟩ =>
    match e.handle line st with
    | (e, st, .editing) => (⟨⟨p, st⟩, n, i, w, o, .editor e⟩, none)
    | (_, st, .quit) => (printPrompt ⟨⟨p, st⟩, n, i, w, o, .commandLine⟩, none)
  | ⟨⟨p, st⟩, n, i, w, o, .basic b⟩ =>
    match b.handle budget line st with
    | (_, st, .quit) => (printPrompt ⟨⟨p, st⟩, n, i, w, o, .commandLine⟩, none)
    | (_, st, .noDrive) => (⟨⟨p, st⟩, n, i, w, o, .exited .noDrive⟩, none)
    | (b, st, _) => (⟨⟨p, st⟩, n, i, w, o, .basic b⟩, none)
  | ⟨c, n, i, w, o, .exited why⟩ => (⟨c, n, i, w, o, .exited why⟩, none)

/-- Takes a line at the console: the editor or BASIC if one is open, and otherwise the
program, which goes on at once if it waits for input. -/
def enterLine (line : List Char) (budget : Nat) (s : Session) : Session × Option RunReport :=
  match s.mode with
  | .editor _ | .basic _ => s.command line budget
  | .exited _ => (s, none)
  | .commandLine =>
    let s := s.typeLine line
    if s.awaitingInput then
      let (s, report) := s.resume budget
      (s, some report)
    else (s, none)

end Session

end Cpm80
