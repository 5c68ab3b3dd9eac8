import Cpm80.SortedMap
import Cpm80.Text.Blank
import Cpm80.Text.Numeral
import Cpm80.Text.Utf8
import Cpm80.Assembler.Error

/-!
# Operand expressions

An expression is a sum of signed terms. A term is the address of the statement, a symbol, a
quoted character or a number in one of five notations. The text is first cut into terms at
the signs outside quotes; then the terms are read and added up from the left, and every
partial sum has to fit 64 bits. A leading sign may be repeated, the last one counts.
-/
namespace Cpm80.Assembler

abbrev Symbols := SortedMap String UInt16

inductive Term
  /-- The address of the statement, written as a dollar sign. -/
  | here
  | symbol (name : String)
  | constant (value : Nat)
  deriving DecidableEq, Repr

/-- A term as it stands in the text, with the sign in front of it. -/
structure SignedText where
  negative : Bool
  text : List Char
  deriving DecidableEq, Repr

/-- Whether a value is representable in 64 bits with a sign. -/
def FitsSigned64 (value : Int) : Prop :=
  -0x8000000000000000 ≤ value ∧ value ≤ 0x7FFFFFFFFFFFFFFF

instance (value : Int) : Decidable (FitsSigned64 value) :=
  inferInstanceAs (Decidable (_ ∧ _))

/-- What stands between the quotes of an operand that is one quoted string; nothing for an
operand that is something else. -/
def quoted? : List Char → Except Fault (Option (List Char))
  | [] => .ok none
  | q :: rest =>
    if Text.isQuote q then
      match rest.dropWhile (· ≠ q) with
      | [] => .error .unterminatedString
      | [_] => .ok (some (rest.takeWhile (· ≠ q)))
      | _ => .ok none
    else .ok none

/-- A scanner's view of quotes: the open quote, if any, after one more character. -/
def quoteAfter (quote : Option Char) (c : Char) : Option Char :=
  match quote with
  | some q => if c = q then none else some q
  | none => if Text.isQuote c then some c else none

/-- Cuts the rest of `whole` into signed texts, after the terms `done` and the beginning
`current` of one more, both in reverse. -/
def splitTermsFrom (whole : List Char) (quote : Option Char) (negative : Bool)
    (current : List Char) (done : List SignedText) :
    List Char → Except Fault (List SignedText)
  | [] =>
    if quote.isSome then .error .unterminatedString
    else .ok (⟨negative, current.reverse⟩ :: done).reverse
  | c :: rest =>
    if quote.isNone ∧ (c = '+' ∨ c = '-') then
      if (Text.trim current).isEmpty then
        if done.isEmpty then splitTermsFrom whole none (c = '-') [] done rest
        else .error (.malformedNumber (String.ofList whole))
      else
        splitTermsFrom whole none (c = '-') [] (⟨negative, current.reverse⟩ :: done) rest
    else splitTermsFrom whole (quoteAfter quote c) negative (c :: current) done rest

def splitTerms (whole : List Char) : Except Fault (List SignedText) :=
  splitTermsFrom whole none false [] [] whole

/-- The digits of a number and their base, from its text in upper case. -/
def numberForm (text : List Char) : Nat × List Char :=
  match text with
  | '0' :: 'X' :: hex => (16, hex)
  | _ =>
    match text.getLast? with
    | some 'H' => (16, text.dropLast)
    | some 'B' => (2, text.dropLast)
    | some 'D' => (10, text.dropLast)
    | _ => (10, text)

/-- Reads a number below 2^63. -/
def number? (text : List Char) : Option Nat :=
  let (base, digits) := numberForm (Text.upper text)
  match Numeral.nat? base digits with
  | some n => if n ≤ 0x7FFFFFFFFFFFFFFF then some n else none
  | none => none

def Term.read (text : List Char) : Except Fault Term :=
  match text with
  | [] => .error (.malformedNumber "")
  | ['$'] => .ok .here
  | c :: _ =>
    if Text.isQuote c then
      match quoted? text with
      | .error e => .error e
      | .ok none => .error (.malformedNumber (String.ofList text))
      | .ok (some inner) =>
        match Utf8.encode inner with
        | [b] => .ok (.constant b.toNat)
        | _ => .error (.malformedNumber (String.ofList text))
    else if c.isDigit then
      match number? text with
      | some n => .ok (.constant n)
      | none => .error (.malformedNumber (String.ofList text))
    else .ok (.symbol (String.ofList (Text.upper text)))

def Term.value (symbols : Symbols) (here : UInt16) : Term → Except Fault Int
  | .here => .ok here.toNat
  | .constant n => .ok n
  | .symbol name =>
    match symbols.get? name with
    | some v => .ok v.toNat
    | none => .error (.undefinedSymbol name)

/-- Adds the terms to `total` from the left; `whole` is the text of the expression. -/
def sumTerms (symbols : Symbols) (here : UInt16) (whole : List Char) (total : Int) :
    List SignedText → Except Fault Int
  | [] => .ok total
  | t :: rest => do
    let term ← Term.read (Text.trim t.text)
    let value ← term.value symbols here
    let sum := if t.negative then total - value else total + value
    if FitsSigned64 sum then sumTerms symbols here whole sum rest
    else .error (.malformedNumber (String.ofList whole))

/-- The value of an expression in a statement at address `here`. -/
def evaluate (symbols : Symbols) (here : UInt16) (text : List Char) : Except Fault Int :=
  let text := Text.trim text
  if text.isEmpty then .error (.malformedNumber "")
  else
    match splitTerms text with
    | .error e => .error e
    | .ok terms => sumTerms symbols here text 0 terms

/-- A value that has to fit a byte, with or without a sign. -/
def byteValue (symbols : Symbols) (here : UInt16) (text : List Char) : Except Fault UInt8 := do
  let v ← evaluate symbols here text
  if -128 ≤ v ∧ v ≤ 255 then .ok (UInt8.ofNat (v % 256).toNat)
  else .error (.outOfRange v 8)

/-- A value that has to fit a word, with or without a sign. -/
def wordValue (symbols : Symbols) (here : UInt16) (text : List Char) : Except Fault UInt16 := do
  let v ← evaluate symbols here text
  if -32768 ≤ v ∧ v ≤ 65535 then .ok (UInt16.ofNat (v % 65536).toNat)
  else .error (.outOfRange v 16)

end Cpm80.Assembler
