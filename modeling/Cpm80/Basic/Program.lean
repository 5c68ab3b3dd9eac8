import Cpm80.Basic.Reading
import Cpm80.FileContent
import Cpm80.Text.Blank

/-!
# Programs

A program has at most one line of code under each line number, and its lines are listed,
saved and run in the order of their numbers. A numbered line replaces the line with its
number; without code it takes that line out.
-/
namespace Cpm80.Basic

abbrev Program := SortedMap Nat (List Char)

/-- Whether a line of text starts with a line number. -/
def isNumbered (line : List Char) : Bool :=
  line.head?.any Char.isDigit

namespace Program

/-- Enters a numbered line; a number that is too large is refused. -/
def enter? (p : Program) (line : List Char) : Option Program :=
  let code := Text.trim (line.dropWhile Char.isDigit)
  (Numeral.bounded? maxLineNumber (line.takeWhile Char.isDigit)).map fun n =>
    if code.isEmpty then p.erase n else p.insert n code

/-- The first and the last line number that a listing is asked for: one number, two with a
dash between them, or all. -/
def listedNumbers (argument : List Char) : Nat × Nat :=
  let range : Option (Nat × Nat) :=
    match argument.dropWhile (· ≠ '-') with
    | [] => (Numeral.bounded? maxLineNumber argument).map fun n => (n, n)
    | _ :: rest => do
      let first ← Numeral.bounded? maxLineNumber (Text.trim (argument.takeWhile (· ≠ '-')))
      let last ← Numeral.bounded? maxLineNumber (Text.trim rest)
      some (first, last)
  range.getD (0, maxLineNumber)

/-- A line as it is listed and saved. -/
def lineText (line : Nat × List Char) : List Char :=
  line.1.repr.toList ++ ' ' :: line.2

/-- The lines that a listing shows; at least the first one it was asked for. -/
def listing (p : Program) (argument : List Char) : List (List Char) :=
  let (first, last) := listedNumbers argument
  (p.entries.filter fun line => first ≤ line.1 && line.1 ≤ max first last).map lineText

def toFile (p : Program) : Array UInt8 :=
  TextFile.ofLines (p.entries.map lineText)

/-- Enters a line of a file; what is not numbered is left out. -/
def enterFromFile (p : Program) (line : List Char) : Program :=
  let line := Text.trim line
  if isNumbered line then (p.enter? line).getD p else p

def ofFile (content : Array UInt8) : Program :=
  (TextFile.lines content).foldl enterFromFile .empty

end Program

end Cpm80.Basic
