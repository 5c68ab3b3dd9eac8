import Cpm80.Decimal.Shortest

/-!
# Decimal notation of numbers

Numbers are written with the fewest digits that read back to them and always positionally.
They are read from digits with an optional point and an optional exponent; a sign, infinity
and "not a number" can be typed but are no part of a literal.
-/
namespace Cpm80.Decimal

/-- The decimal without zeros at the end of its digits. -/
def stripZeros : (fuel : Nat) → Scaled → Scaled
  | 0, d => d
  | fuel + 1, d =>
    if d.digits ≠ 0 ∧ d.digits % 10 = 0 then stripZeros fuel ⟨d.digits / 10, d.exponent + 1⟩
    else d

/-- Writes a decimal without an exponent. -/
def positional (d : Scaled) : List Char :=
  let digits := d.digits.repr.toList
  if 0 ≤ d.exponent then digits ++ List.replicate d.exponent.toNat '0'
  else
    let places := (-d.exponent).toNat
    if places < digits.length then
      digits.take (digits.length - places) ++ '.' :: digits.drop (digits.length - places)
    else '0' :: '.' :: List.replicate (places - digits.length) '0' ++ digits

/-- Writes a number. -/
def render (x : Float) : String :=
  let bits := x.toBits.toNat
  let magnitude := bits % 0x8000000000000000
  let sign := if bits < 0x8000000000000000 then "" else "-"
  if 0x7FF0000000000000 < magnitude then "NaN"
  else if magnitude = 0x7FF0000000000000 then sign ++ "inf"
  else if magnitude = 0 then sign ++ "0"
  else
    let d := stripZeros Interval.maxDigits (Interval.ofBits magnitude).shortest
    sign ++ String.ofList (positional d)

/-! ## Reading -/

def natOfDigits (digits : List Char) : Nat :=
  digits.foldl (fun n c => n * 10 + (c.toNat - 48)) 0

/-- The number `digits · 10 ^ exponent`, rounded once. What is too large or too small for any
number is recognised by its magnitude alone. -/
def toFloat (d : Scaled) : Float :=
  if d.digits = 0 then 0
  else
    let magnitude := (d.digits.log2 : Int) * 1233 / 4096 + d.exponent
    if 310 < magnitude then Float.ofBits 0x7FF0000000000000
    else if magnitude < -330 then 0
    else Float.ofScientific d.digits (d.exponent < 0) d.exponent.natAbs

/-- An exponent: a letter, an optional sign and at least one digit. -/
def exponent? : List Char → Option Int
  | [] => some 0
  | e :: rest =>
    if e = 'e' ∨ e = 'E' then
      let (negative, digits) := match rest with
        | '-' :: digits => (true, digits)
        | '+' :: digits => (false, digits)
        | digits => (false, digits)
      if digits.isEmpty ∨ !digits.all Char.isDigit then none
      else
        let n : Int := natOfDigits digits
        some (if negative then -n else n)
    else none

/-- Reads digits with at most one point among or beside them, and an exponent. -/
def unsigned? (text : List Char) : Option Float :=
  let whole := text.takeWhile Char.isDigit
  let afterWhole := text.dropWhile Char.isDigit
  let (fraction, rest) := match afterWhole with
    | '.' :: rest => (rest.takeWhile Char.isDigit, rest.dropWhile Char.isDigit)
    | rest => ([], rest)
  if whole.isEmpty ∧ fraction.isEmpty then none
  else
    (exponent? rest).map fun e => toFloat ⟨natOfDigits (whole ++ fraction), e - fraction.length⟩

/-- Reads a number as it may be typed: with a sign, or in words. -/
def typed? (text : List Char) : Option Float :=
  let (negative, text) := match text with
    | '-' :: rest => (true, rest)
    | '+' :: rest => (false, rest)
    | rest => (false, rest)
  let value := match String.ofList (text.map Char.toLower) with
    | "inf" | "infinity" => some (Float.ofBits 0x7FF0000000000000)
    | "nan" => some (Float.ofBits 0x7FF8000000000000)
    | _ => unsigned? text
  value.map fun x => if negative then -x else x

end Cpm80.Decimal
