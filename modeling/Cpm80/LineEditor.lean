import Cpm80.FileContent
import Cpm80.Station
import Cpm80.Text.Blank
import Cpm80.Text.Numeral

/-!
# The line editor

The editor holds the lines of one file and is given one line of input at a time. In command
mode the first letter of the input says what to do; in insert mode the input goes into the
file until an empty line ends the mode. Nothing reaches the drive before the file is saved.
-/
namespace Cpm80

structure LineEditor where
  drive : Nat
  fileName : String
  lines : List (List Char)
  /-- How many lines lie before the place where the next one is inserted. -/
  cursor : Nat
  inserting : Bool := false
  deriving DecidableEq, Repr

namespace LineEditor

def help : List String :=
  ["ED Commands:",
    "  I        - Insert mode",
    "  D n      - Delete line n",
    "  L        - List all lines",
    "  L n-m    - List lines n to m",
    "  S        - Save file",
    "  Q        - Quit editor"]

/-- The number of a line, right-aligned in four places, and a colon. -/
def lineLabel (n : Nat) : List Char :=
  let digits := n.repr.toList
  List.replicate (4 - digits.length) ' ' ++ digits ++ [':', ' ']

def showPrompt (e : LineEditor) (s : Station) : Station :=
  s.print (if e.inserting then String.ofList (lineLabel (e.cursor + 1)) else "*")

/-- Opens a file, which need not exist yet, and greets the user. -/
def start (drive : Nat) (fileName : String) (s : Station) : LineEditor × Station :=
  let lines := match s.disk.file? drive fileName with
    | some content => TextFile.lines content
    | none => []
  let e : LineEditor := { drive, fileName, lines, cursor := lines.length }
  let s := s.printLine "ED - CP/M Text Editor"
  let s := s.printLine ("Editing: " ++ fileName)
  let s := s.printLine "Commands: I=Insert, D=Delete, L=List, S=Save, Q=Quit"
  let s := s.printLine ""
  (e, e.showPrompt s)

def insertLine (e : LineEditor) (line : List Char) : LineEditor :=
  { e with
    lines := e.lines.take e.cursor ++ line :: e.lines.drop e.cursor
    cursor := e.cursor + 1 }

/-- Takes out the line with number `n`, counted from one. -/
def deleteLine (e : LineEditor) (n : Nat) : LineEditor :=
  { e with
    lines := e.lines.eraseIdx (n - 1)
    cursor := if n ≤ e.cursor then e.cursor - 1 else e.cursor }

/-- The largest number that can be typed. -/
def maxNumber : Nat := 0xFFFFFFFFFFFFFFFF

def delete (e : LineEditor) (argument : List Char) (s : Station) : LineEditor × Station :=
  match Numeral.bounded? maxNumber argument with
  | some n =>
    if 1 ≤ n ∧ n ≤ e.lines.length then
      (e.deleteLine n, s.printLine ("Deleted line " ++ n.repr))
    else (e, s.printLine "Invalid line number")
  | none => (e, s.printLine "Invalid line number")

/-- The lines to list, as numbers of the first and the last one: all of them unless the
argument names one line or a range. -/
def listed (e : LineEditor) (argument : List Char) : Nat × Nat :=
  let range : Option (Nat × Nat) :=
    match argument.dropWhile (· ≠ '-') with
    | [] => (Numeral.bounded? maxNumber argument).map fun n => (n, n)
    | _ :: rest => do
      let first ← Numeral.bounded? maxNumber (Text.trim (argument.takeWhile (· ≠ '-')))
      let last ← Numeral.bounded? maxNumber (Text.trim rest)
      some (first, last)
  range.getD (1, e.lines.length)

def list (e : LineEditor) (argument : List Char) (s : Station) : Station :=
  let (first, last) := e.listed argument
  let numbered := (e.lines.zipIdx 1).filter fun (_, n) => first ≤ n && n ≤ last
  numbered.foldl (fun s (line, n) => s.printLine (String.ofList (lineLabel n ++ line))) s

def save (e : LineEditor) (s : Station) : Station :=
  let ⟨m, d, c, u⟩ := s
  let (d, result) := d.saveFile e.drive e.fileName (TextFile.ofLines e.lines)
  let s : Station := ⟨m, d, c, u⟩
  match result with
  | some none =>
    s.printLine ("Saved " ++ e.lines.length.repr ++ " lines to " ++ e.fileName)
  | some (some error) => s.printLine ("ERROR: " ++ error.message)
  | none => s.printLine "NO DRIVE"

/-- What a line of input leads to: the editor goes on, or it is left. -/
inductive Status
  | editing
  | quit
  deriving DecidableEq, Repr

/-- Obeys a command. -/
def command (e : LineEditor) (input : List Char) (s : Station) :
    LineEditor × Station × Status :=
  match Text.upper (Text.trim input) with
  | [] => (e, s, .editing)
  | letter :: rest =>
    let argument := Text.trim rest
    match letter with
    | 'I' =>
      ({ e with inserting := true },
        s.printLine "Enter text (empty line to exit insert mode):", .editing)
    | 'D' =>
      let (e, s) := e.delete argument s
      (e, s, .editing)
    | 'L' => (e, e.list argument s, .editing)
    | 'S' => (e, e.save s, .editing)
    | 'Q' => (e, s, .quit)
    | 'H' => (e, s.printLines help, .editing)
    | other => (e, s.printLine ("Unknown command: " ++ String.singleton other), .editing)

/-- Takes one line of input and asks for the next. -/
def handle (e : LineEditor) (input : List Char) (s : Station) : LineEditor × Station × Status :=
  if e.inserting then
    let e := if input.isEmpty then { e with inserting := false } else e.insertLine input
    (e, e.showPrompt s, .editing)
  else
    match e.command input s with
    | (e, s, .quit) => (e, s, .quit)
    | (e, s, .editing) => (e, e.showPrompt s, .editing)

end LineEditor

end Cpm80
