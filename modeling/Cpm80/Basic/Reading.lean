import Cpm80.Basic.Value
import Cpm80.Text.Numeral

/-!
# Reading statements of BASIC

A statement is read from the left. Every reader skips blanks, takes what it is after, and
gives back the rest of the text with a proof that it has become shorter, so that readers that
call each other come to an end.
-/
namespace Cpm80.Basic

/-- A value read from a text, and the rest of it, which is shorter than `limit`. -/
structure Reading (α : Type) (limit : Nat) where
  value : α
  rest : List Char
  shorter : rest.length < limit

/-- The blanks inside a statement. -/
def isSpace (c : Char) : Bool :=
  c = ' ' || c = '\t' || c = '\n' || c = '\r' || c = '\x0c'

def skipSpaces (s : List Char) : List Char :=
  s.dropWhile isSpace

theorem length_dropWhile_le {α : Type} (p : α → Bool) (s : List α) :
    (s.dropWhile p).length ≤ s.length :=
  (List.dropWhile_sublist p).length_le

theorem length_skipSpaces (s : List Char) : (skipSpaces s).length ≤ s.length :=
  length_dropWhile_le _ s

/-- The next character that is not a blank. -/
def peek (s : List Char) : Option Char :=
  (skipSpaces s).head?

/-- Takes the character `c`. -/
def eat? (c : Char) (s : List Char) : Option (Reading Unit s.length) :=
  match h : skipSpaces s with
  | [] => none
  | d :: rest =>
    if d = c then
      some ⟨(), rest, by
        have := length_skipSpaces s
        rw [h, List.length_cons] at this
        omega⟩
    else none

/-- Takes a word in any letters, also in front of more letters. -/
def keyword? (word : List Char) (s : List Char) : Option (Reading Unit (s.length + 1)) :=
  let t := skipSpaces s
  have ht : t.length ≤ s.length := length_skipSpaces s
  if (t.take word.length).map Char.toUpper = word then
    some ⟨(), t.drop word.length, by
      rw [List.length_drop]
      omega⟩
  else none

/-- Takes a letter with the letters and digits after it and a dollar sign, in upper case. -/
def identifier? (s : List Char) : Option (Reading String s.length) :=
  match h : skipSpaces s with
  | [] => none
  | c :: rest =>
    if c.isAlpha then
      let body := (c :: rest.takeWhile Char.isAlphanum).map Char.toUpper
      let after := rest.dropWhile Char.isAlphanum
      have ha : after.length < s.length := by
        have hs := length_skipSpaces s
        have hd := length_dropWhile_le Char.isAlphanum rest
        rw [h, List.length_cons] at hs
        exact Nat.lt_of_le_of_lt hd hs
      if after.head? = some '$' then
        some ⟨String.ofList (body ++ ['$']), after.drop 1, by
          rw [List.length_drop]
          omega⟩
      else some ⟨String.ofList body, after, ha⟩
    else none

/-- Takes a text in quotes. -/
def string? (s : List Char) : Option (Reading (List Char) s.length) :=
  match eat? '"' s with
  | none => none
  | some ⟨_, rest, h⟩ =>
    match hd : rest.dropWhile (· ≠ '"') with
    | [] => none
    | _ :: after =>
      some ⟨rest.takeWhile (· ≠ '"'), after, by
        have := length_dropWhile_le (· ≠ '"') rest
        rw [hd, List.length_cons] at this
        omega⟩

def isNumeralChar (c : Char) : Bool :=
  c.isDigit || c = '.'

/-- The text of an exponent at the front: a letter and a sign count only with a digit after
them. -/
def exponentLength (s : List Char) : Nat :=
  match s with
  | e :: rest =>
    if e = 'e' ∨ e = 'E' then
      let sign := match rest with
        | c :: _ => if c = '+' ∨ c = '-' then 1 else 0
        | [] => 0
      let digits := ((rest.drop sign).takeWhile Char.isDigit).length
      if digits = 0 then 0 else 1 + sign + digits
    else 0
  | [] => 0

/-- Takes a number without a sign. -/
def number? (s : List Char) : Option (Reading Float s.length) :=
  let t := skipSpaces s
  let mantissa := (t.takeWhile isNumeralChar).length
  let length := mantissa + exponentLength (t.drop mantissa)
  if h : 0 < mantissa then
    (Decimal.unsigned? (t.take length)).map fun x => ⟨x, t.drop length, by
      have ht : t.length ≤ s.length := length_skipSpaces s
      have hm : mantissa ≤ t.length := (List.takeWhile_sublist _).length_le
      have hl : mantissa ≤ length := Nat.le_add_right _ _
      rw [List.length_drop]
      omega⟩
  else none

/-- The largest line number. -/
def maxLineNumber : Nat := 0xFFFFFFFF

/-- Takes a line number and gives the rest of the text. -/
def lineNumber? (s : List Char) : Option (Nat × List Char) :=
  let t := skipSpaces s
  (Numeral.bounded? maxLineNumber (t.takeWhile Char.isDigit)).map fun n =>
    (n, t.dropWhile Char.isDigit)

/-- Takes the sign of a relation; one of two characters before one of its first. -/
def relation? (s : List Char) : Option (Reading Relation s.length) :=
  match h : skipSpaces s with
  | [] => none
  | c :: rest =>
    have one : rest.length < s.length := by
      have hs := length_skipSpaces s
      rw [h, List.length_cons] at hs
      exact hs
    have two : (rest.drop 1).length < s.length := by
      rw [List.length_drop]
      omega
    match c, rest.head? with
    | '<', some '=' => some ⟨.atMost, rest.drop 1, two⟩
    | '>', some '=' => some ⟨.atLeast, rest.drop 1, two⟩
    | '<', some '>' => some ⟨.different, rest.drop 1, two⟩
    | '<', _ => some ⟨.less, rest, one⟩
    | '>', _ => some ⟨.greater, rest, one⟩
    | '=', _ => some ⟨.equal, rest, one⟩
    | _, _ => none

/-! ## Expressions -/

mutual

/-- Reads a sum, or the relation of two sums, and computes it. -/
def expression (v : Variables) (s : List Char) : Except Fault (Reading Value s.length) :=
  match sum v s with
  | .error e => .error e
  | .ok ⟨left, rest, h⟩ =>
    match relation? rest with
    | none => .ok ⟨left, rest, h⟩
    | some ⟨r, rest', h'⟩ =>
      match sum v rest' with
      | .error e => .error e
      | .ok ⟨right, rest'', h''⟩ =>
        match r.holds left right with
        | .error e => .error e
        | .ok b => .ok ⟨.ofBool b, rest'', by omega⟩
termination_by (s.length, 7)

/-- Reads products with plus and minus signs between them. -/
def sum (v : Variables) (s : List Char) : Except Fault (Reading Value s.length) :=
  match product v s with
  | .error e => .error e
  | .ok ⟨first, rest, h⟩ =>
    match sumRest v first rest with
    | .error e => .error e
    | .ok ⟨total, rest', h'⟩ => .ok ⟨total, rest', by omega⟩
termination_by (s.length, 6)

/-- Reads the rest of a sum of which `total` has been computed. -/
def sumRest (v : Variables) (total : Value) (s : List Char) :
    Except Fault (Reading Value (s.length + 1)) :=
  match eat? '+' s with
  | some ⟨_, rest, h⟩ =>
    match product v rest with
    | .error e => .error e
    | .ok ⟨right, rest', h'⟩ =>
      match total.add right with
      | .error e => .error e
      | .ok total =>
        match sumRest v total rest' with
        | .error e => .error e
        | .ok ⟨total, rest'', h''⟩ => .ok ⟨total, rest'', by omega⟩
  | none =>
    match eat? '-' s with
    | some ⟨_, rest, h⟩ =>
      match product v rest with
      | .error e => .error e
      | .ok ⟨right, rest', h'⟩ =>
        match total.sub right with
        | .error e => .error e
        | .ok total =>
          match sumRest v total rest' with
          | .error e => .error e
          | .ok ⟨total, rest'', h''⟩ => .ok ⟨total, rest'', by omega⟩
    | none => .ok ⟨total, s, by omega⟩
termination_by (s.length, 5)

/-- Reads signed operands with signs of multiplication and division between them. -/
def product (v : Variables) (s : List Char) : Except Fault (Reading Value s.length) :=
  match signed v s with
  | .error e => .error e
  | .ok ⟨first, rest, h⟩ =>
    match productRest v first rest with
    | .error e => .error e
    | .ok ⟨total, rest', h'⟩ => .ok ⟨total, rest', by omega⟩
termination_by (s.length, 4)

/-- Reads the rest of a product of which `total` has been computed. -/
def productRest (v : Variables) (total : Value) (s : List Char) :
    Except Fault (Reading Value (s.length + 1)) :=
  match eat? '*' s with
  | some ⟨_, rest, h⟩ =>
    match signed v rest with
    | .error e => .error e
    | .ok ⟨right, rest', h'⟩ =>
      match total.mul right with
      | .error e => .error e
      | .ok total =>
        match productRest v total rest' with
        | .error e => .error e
        | .ok ⟨total, rest'', h''⟩ => .ok ⟨total, rest'', by omega⟩
  | none =>
    match eat? '/' s with
    | some ⟨_, rest, h⟩ =>
      match signed v rest with
      | .error e => .error e
      | .ok ⟨right, rest', h'⟩ =>
        match total.div right with
        | .error e => .error e
        | .ok total =>
          match productRest v total rest' with
          | .error e => .error e
          | .ok ⟨total, rest'', h''⟩ => .ok ⟨total, rest'', by omega⟩
    | none => .ok ⟨total, s, by omega⟩
termination_by (s.length, 3)

/-- Reads a power with any signs in front, which apply to the whole power. -/
def signed (v : Variables) (s : List Char) : Except Fault (Reading Value s.length) :=
  match eat? '-' s with
  | some ⟨_, rest, h⟩ =>
    match signed v rest with
    | .error e => .error e
    | .ok ⟨x, rest', h'⟩ =>
      match x.negate with
      | .error e => .error e
      | .ok x => .ok ⟨x, rest', by omega⟩
  | none =>
    match eat? '+' s with
    | some ⟨_, rest, h⟩ =>
      match signed v rest with
      | .error e => .error e
      | .ok ⟨x, rest', h'⟩ =>
        match x.plus with
        | .error e => .error e
        | .ok x => .ok ⟨x, rest', by omega⟩
    | none => power v s
termination_by (s.length, 2)

/-- Reads an operand with an optional exponent, which may be signed and a power itself. -/
def power (v : Variables) (s : List Char) : Except Fault (Reading Value s.length) :=
  match operand v s with
  | .error e => .error e
  | .ok ⟨base, rest, h⟩ =>
    match eat? '^' rest with
    | none => .ok ⟨base, rest, h⟩
    | some ⟨_, rest', h'⟩ =>
      match signed v rest' with
      | .error e => .error e
      | .ok ⟨exponent, rest'', h''⟩ =>
        match base.power exponent with
        | .error e => .error e
        | .ok x => .ok ⟨x, rest'', by omega⟩
termination_by (s.length, 1)

/-- Reads a number, a text, a variable or an expression in parentheses. -/
def operand (v : Variables) (s : List Char) : Except Fault (Reading Value s.length) :=
  match eat? '(' s with
  | some ⟨_, rest, h⟩ =>
    match expression v rest with
    | .error e => .error e
    | .ok ⟨x, rest', h'⟩ =>
      match eat? ')' rest' with
      | none => .error .badStatement
      | some ⟨_, rest'', h''⟩ => .ok ⟨x, rest'', by omega⟩
  | none =>
    match peek s with
    | none => .error .badStatement
    | some c =>
      if c = '"' then
        match string? s with
        | none => .error .badStatement
        | some ⟨t, rest, h⟩ => .ok ⟨.text t, rest, h⟩
      else if isNumeralChar c then
        match number? s with
        | none => .error .badStatement
        | some ⟨x, rest, h⟩ => .ok ⟨.number x, rest, h⟩
      else
        match identifier? s with
        | none => .error .badStatement
        | some ⟨name, rest, h⟩ => .ok ⟨v.value name, rest, h⟩
termination_by (s.length, 0)

end

end Cpm80.Basic
