/-!
# Blanks and lines

The blanks are the characters with the White_Space property, in all scripts. Text is trimmed
of them at the ends and cut into a first word and the rest at the first of them.

Text is cut into lines after each line feed. A line that ends in a line feed may have a
carriage return before it, which belongs to the ending. What follows the last line feed is a
line if it is not empty, and keeps its carriage return.
-/
namespace Cpm80.Text

/-- The characters with the White_Space property. -/
def isBlank (c : Char) : Bool :=
  let n := c.toNat
  (0x09 ≤ n && n ≤ 0x0D) || n = 0x20 || n = 0x85 || n = 0xA0 || n = 0x1680 ||
    (0x2000 ≤ n && n ≤ 0x200A) || n = 0x2028 || n = 0x2029 || n = 0x202F || n = 0x205F ||
    n = 0x3000

def trimStart (s : List Char) : List Char :=
  s.dropWhile isBlank

def trimEnd (s : List Char) : List Char :=
  (s.reverse.dropWhile isBlank).reverse

def trim (s : List Char) : List Char :=
  trimEnd (trimStart s)

@[simp] theorem trimStart_nil : trimStart [] = [] := rfl

@[simp] theorem trimEnd_nil : trimEnd [] = [] := rfl

@[simp] theorem trim_nil : trim [] = [] := rfl

/-- What is left after trimming the front does not start with a blank. -/
theorem head?_trimStart (s : List Char) : ∀ c ∈ (trimStart s).head?, isBlank c = false := by
  intro c hc
  have := List.head?_dropWhile_not isBlank s
  simp only [trimStart] at hc
  cases h : (s.dropWhile isBlank).head? with
  | none => simp [h] at hc
  | some d => simp_all

/-- The first word and what follows it, the blank between them included. -/
def splitWord (s : List Char) : List Char × List Char :=
  (trimStart s).span fun c => !isBlank c

/-- Collects the words of a text, after the words `done` and the beginning `current` of one
more, both in reverse. -/
def wordsFrom (done : List (List Char)) (current : List Char) : List Char → List (List Char)
  | [] => (if current.isEmpty then done else current.reverse :: done).reverse
  | c :: rest =>
    if isBlank c then
      wordsFrom (if current.isEmpty then done else current.reverse :: done) [] rest
    else wordsFrom done (c :: current) rest

/-- The stretches of text between blanks. -/
def words (s : List Char) : List (List Char) :=
  wordsFrom [] [] s

/-- Letters of the ASCII alphabet in upper case, all else unchanged. -/
def upper (s : List Char) : List Char :=
  s.map Char.toUpper

@[simp] theorem length_upper (s : List Char) : (upper s).length = s.length := by
  simp [upper]

def isQuote (c : Char) : Bool :=
  c = '\'' || c = '"'

/-! ## Lines -/

/-- The text of a line that a line feed ended, given in reverse. -/
def endedLine : List Char → List Char
  | '\r' :: rest => rest.reverse
  | rest => rest.reverse

/-- Cuts text into lines, after the lines `done` and the beginning `current` of a line, both
in reverse. -/
def linesFrom (done : List (List Char)) (current : List Char) : List Char → List (List Char)
  | [] => (if current.isEmpty then done else current.reverse :: done).reverse
  | c :: rest =>
    if c = '\n' then linesFrom (endedLine current :: done) [] rest
    else linesFrom done (c :: current) rest

def lines (text : List Char) : List (List Char) :=
  linesFrom [] [] text

end Cpm80.Text
