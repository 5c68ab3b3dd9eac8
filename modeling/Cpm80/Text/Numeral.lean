/-!
# Numerals

Digits in a base up to sixteen, letters in either case. A numeral has at least one digit and
nothing else; a decimal word with a limit may carry a plus sign. Bytes and words are shown with a
fixed number of upper-case hexadecimal digits.
-/
namespace Cpm80

namespace Numeral

def digit? (c : Char) : Option Nat :=
  if '0' ≤ c ∧ c ≤ '9' then some (c.toNat - 48)
  else if 'A' ≤ c ∧ c ≤ 'F' then some (c.toNat - 55)
  else if 'a' ≤ c ∧ c ≤ 'f' then some (c.toNat - 87)
  else none

/-- The value of `n` followed by the digits of `s`. -/
def extend? (base : Nat) (n : Nat) : List Char → Option Nat
  | [] => some n
  | c :: rest =>
    match digit? c with
    | some d => if d < base then extend? base (n * base + d) rest else none
    | none => none

def nat? (base : Nat) (s : List Char) : Option Nat :=
  if s.isEmpty then none else extend? base 0 s

/-- A decimal number of at most `limit`, with or without a plus sign. -/
def bounded? (limit : Nat) (s : List Char) : Option Nat :=
  let digits := match s with
    | '+' :: rest => rest
    | _ => s
  match nat? 10 digits with
  | some n => if n ≤ limit then some n else none
  | none => none

end Numeral

namespace Hex

def digit (n : Nat) : Char :=
  Char.ofNat (if n < 10 then 48 + n else 55 + n)

/-- The last `width` hexadecimal digits of `n`, most significant first. -/
def digits : (width : Nat) → (n : Nat) → List Char
  | 0, _ => []
  | width + 1, n => digits width (n / 16) ++ [digit (n % 16)]

@[simp] theorem length_digits (width n : Nat) : (digits width n).length = width := by
  induction width generalizing n with
  | zero => rfl
  | succ width ih => simp [digits, ih]

/-- Two digits. -/
def byte (b : UInt8) : String :=
  String.ofList (digits 2 b.toNat)

/-- Four digits. -/
def word (w : UInt16) : String :=
  String.ofList (digits 4 w.toNat)

end Hex

end Cpm80
