import Cpm80.Decimal.Notation
import Cpm80.SortedMap

/-!
# Values of BASIC

A value is a number or a text. Sums, comparisons and the truth of a condition are defined on
values; an operation on the wrong kind of value is a type mismatch.
-/
namespace Cpm80.Basic

inductive Fault
  | badStatement
  | typeMismatch
  | divisionByZero
  | undefinedLine (number : Nat)
  | returnWithoutGosub
  | nextWithoutFor
  deriving DecidableEq, Repr

def Fault.message : Fault → String
  | badStatement => "SYNTAX ERROR"
  | typeMismatch => "TYPE MISMATCH"
  | divisionByZero => "DIVISION BY ZERO"
  | undefinedLine n => "UNDEFINED LINE " ++ n.repr
  | returnWithoutGosub => "RETURN WITHOUT GOSUB"
  | nextWithoutFor => "NEXT WITHOUT FOR"

inductive Value
  | number (x : Float)
  | text (s : List Char)

namespace Value

def ofBool (b : Bool) : Value :=
  number (if b then 1 else 0)

def toNumber : Value → Except Fault Float
  | number x => .ok x
  | text _ => .error .typeMismatch

def isText : Value → Bool
  | number _ => false
  | text _ => true

/-- A condition holds if it is a number other than zero or a text that is not empty. -/
def isTrue : Value → Bool
  | number x => x != 0
  | text s => !s.isEmpty

def render : Value → List Char
  | number x => (Decimal.render x).toList
  | text s => s

/-- Numbers are added, texts are joined. -/
def add : Value → Value → Except Fault Value
  | number x, number y => .ok (number (x + y))
  | text s, text t => .ok (text (s ++ t))
  | _, _ => .error .typeMismatch

def sub (x y : Value) : Except Fault Value := do
  let b ← y.toNumber
  let a ← x.toNumber
  .ok (number (a - b))

def mul (x y : Value) : Except Fault Value := do
  let b ← y.toNumber
  let a ← x.toNumber
  .ok (number (a * b))

/-- A zero divisor is reported before a dividend that is no number. -/
def div (x y : Value) : Except Fault Value := do
  let b ← y.toNumber
  if b == 0 then .error .divisionByZero
  else do
    let a ← x.toNumber
    .ok (number (a / b))

def power (x y : Value) : Except Fault Value := do
  let b ← y.toNumber
  let a ← x.toNumber
  .ok (number (a ^ b))

def negate (x : Value) : Except Fault Value := do
  let a ← x.toNumber
  .ok (number (-a))

/-- A plus sign in front asks for a number and leaves it as it is. -/
def plus (x : Value) : Except Fault Value := do
  let a ← x.toNumber
  .ok (number a)

/-- The order of two values of one kind; two numbers of which one is "not a number" have
none. -/
def order : Value → Value → Except Fault (Option Ordering)
  | number x, number y =>
    .ok (if x < y then some .lt else if x == y then some .eq else if y < x then some .gt
      else none)
  | text s, text t => .ok (some (compareOfLessAndEq (String.ofList s) (String.ofList t)))
  | _, _ => .error .typeMismatch

end Value

inductive Relation
  | atMost | atLeast | different | less | greater | equal
  deriving DecidableEq, Repr

/-- Whether the relation holds; of values without an order only that they differ. -/
def Relation.holds (r : Relation) (x y : Value) : Except Fault Bool := do
  match ← x.order y with
  | none => .ok (r = different)
  | some o =>
    .ok (match r with
      | atMost => o.isLE
      | atLeast => o.isGE
      | different => o.isNe
      | less => o.isLT
      | greater => o.isGT
      | equal => o.isEq)

abbrev Variables := SortedMap String Value

/-- Whether a name is that of a variable for text. -/
def isTextName (name : String) : Bool :=
  name.toList.getLast? = some '$'

/-- A variable that has not been assigned is zero or empty. -/
def Variables.value (v : Variables) (name : String) : Value :=
  (v.get? name).getD (if isTextName name then .text [] else .number 0)

end Cpm80.Basic
