/-!
# The shortest decimal of a binary fraction

A binary fraction with 53 bits stands for all reals that round to it. Among the decimals in
that interval the shortest is wanted, and of several the one nearest to the fraction. For
each number of digits only the two neighbours of the fraction on the grid of that precision
can be meant; all comparisons are made on whole numbers.
-/
namespace Cpm80.Decimal

/-- A positive decimal: `digits` times ten to the power `exponent`. -/
structure Scaled where
  digits : Nat
  exponent : Int
  deriving DecidableEq, Repr

/-- A positive binary fraction with the interval of reals that round to it: the value is four
times `mantissa`, and the ends lie `below` under and two over it, all times two to the power
`exponent`. -/
structure Interval where
  mantissa : Nat
  exponent : Int
  below : Nat
  /-- Whether the ends belong to the interval. -/
  closed : Bool
  deriving DecidableEq, Repr

namespace Interval

/-- The interval of the double with the given bits below the sign, for a finite value. -/
def ofBits (bits : Nat) : Interval :=
  let fraction := bits % 0x10000000000000
  let field : Nat := bits / 0x10000000000000
  let mantissa := if field = 0 then fraction else fraction + 0x10000000000000
  { mantissa
    exponent := ((if field = 0 then 1 else field : Nat) : Int) - 1077
    below := if fraction = 0 ∧ 1 < field then 1 else 2
    closed := mantissa % 2 = 0 }

/-- The factor on whole numbers and the denominator that stand for the power of two. -/
def factor (i : Interval) : Nat := Nat.pow 2 i.exponent.toNat

def denominator (i : Interval) : Nat := Nat.pow 2 (-i.exponent).toNat

def value (i : Interval) : Nat := 4 * i.mantissa * i.factor

def low (i : Interval) : Nat := (4 * i.mantissa - i.below) * i.factor

def high (i : Interval) : Nat := (4 * i.mantissa + 2) * i.factor

/-- Compares `digits · 10 ^ exponent`, brought to the denominator, with a numerator. -/
def compareWith (i : Interval) (d : Scaled) (numerator : Nat) : Ordering :=
  compare (d.digits * Nat.pow 10 d.exponent.toNat * i.denominator)
    (numerator * Nat.pow 10 (-d.exponent).toNat)

def contains (i : Interval) (d : Scaled) : Bool :=
  match i.compareWith d i.low, i.compareWith d i.high with
  | .lt, _ => false
  | _, .gt => false
  | .eq, _ => i.closed
  | _, .eq => i.closed
  | .gt, .lt => true

/-- The largest decimal with the given exponent that does not exceed the value. -/
def neighbourBelow (i : Interval) (exponent : Int) : Scaled :=
  ⟨i.value * Nat.pow 10 (-exponent).toNat / (i.denominator * Nat.pow 10 exponent.toNat), exponent⟩

/-- Whether the value is below ten to the power `exponent`. -/
def isBelowPower (i : Interval) (exponent : Int) : Bool :=
  i.compareWith ⟨1, exponent⟩ i.value = .gt

/-- The number of digits before the point, or minus the number of zeros after it. The first
guess is made from the binary length and is at most one off in either direction. -/
def magnitude (i : Interval) : Int :=
  let length : Int := (i.value.log2 : Int) - (i.denominator.log2 : Int)
  let guess := length * 1233 / 4096
  if i.isBelowPower (guess - 1) then guess - 1
  else if i.isBelowPower guess then guess
  else if i.isBelowPower (guess + 1) then guess + 1
  else guess + 2

/-- Of the two neighbours on a grid the one to take, if any lies in the interval: the nearer,
and the upper of two equally near. -/
def choice? (i : Interval) (exponent : Int) : Option Scaled :=
  let down := i.neighbourBelow exponent
  let up : Scaled := ⟨down.digits + 1, exponent⟩
  match i.contains down, i.contains up with
  | false, false => none
  | true, false => some down
  | false, true => some up
  | true, true =>
    if i.compareWith ⟨2 * down.digits + 1, exponent⟩ (2 * i.value) = .gt then some down
    else some up

/-- The most digits that are ever needed. -/
def maxDigits : Nat := 17

/-- The shortest decimal of the interval. -/
def shortest (i : Interval) : Scaled :=
  let magnitude := i.magnitude
  ((List.range maxDigits).findSome? fun (n : Nat) => i.choice? (magnitude - (n + 1))).getD
    (i.neighbourBelow (magnitude - maxDigits))

end Interval

end Cpm80.Decimal
