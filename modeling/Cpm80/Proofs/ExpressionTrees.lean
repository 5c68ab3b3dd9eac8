import Cpm80.Basic.Reading
import Cpm80.Text.Blank

/-!
# Expression trees

The grammar of expressions, as a type of trees for each of its categories. A sum is a sum with
one more product behind it, and so is a product with one more operand, so both associate to the
left; a power is an operand with a signed exponent, so it associates to the right and binds
tighter than a sign in front of it. A tree has a value for given variables, or a fault, and it
is written as a row of tokens with any blanks between them.
-/
namespace Cpm80.Basic

/-! ## Tokens -/

/-- The exponent of a number as it is written: nothing, or a letter with digits, which may have
a sign. -/
inductive IsExponent : List Char → Prop
  | none : IsExponent []
  | some {letter : Char} {sign digits : List Char} (hletter : letter = 'e' ∨ letter = 'E')
      (hsign : sign = [] ∨ sign = ['+'] ∨ sign = ['-']) (hne : digits ≠ [])
      (hdigits : ∀ c ∈ digits, c.isDigit) : IsExponent (letter :: (sign ++ digits))

/-- A number as it is written, and the value that it is converted to. -/
structure Literal where
  mantissa : List Char
  exponent : List Char
  value : Float
  mantissa_ne : mantissa ≠ []
  isNumeralChar_mantissa : ∀ c ∈ mantissa, isNumeralChar c
  isExponent : IsExponent exponent
  converted : Decimal.unsigned? (mantissa ++ exponent) = some value

def Literal.token (n : Literal) : List Char :=
  n.mantissa ++ n.exponent

/-- The name of a variable as it is written. -/
structure Identifier where
  first : Char
  more : List Char
  /-- Whether a dollar sign stands behind it. -/
  forText : Bool
  isAlpha_first : first.isAlpha
  isAlphanum_more : ∀ c ∈ more, c.isAlphanum

namespace Identifier

def mark (n : Identifier) : List Char :=
  if n.forText then ['$'] else []

def token (n : Identifier) : List Char :=
  n.first :: (n.more ++ n.mark)

/-- The variable that is meant, whatever letters it is written in. -/
def name (n : Identifier) : String :=
  String.ofList (Text.upper n.token)

end Identifier

/-- The signs between the terms of a sum and in front of an operand. -/
inductive Sign
  | plus
  | minus
  deriving DecidableEq, Repr

/-- The signs between the factors of a product. -/
inductive Scaling
  | times
  | dividedBy
  deriving DecidableEq, Repr

def Sign.mark : Sign → Char
  | plus => '+'
  | minus => '-'

def Scaling.mark : Scaling → Char
  | times => '*'
  | dividedBy => '/'

def Relation.token : Relation → List Char
  | atMost => ['<', '=']
  | atLeast => ['>', '=']
  | different => ['<', '>']
  | less => ['<']
  | greater => ['>']
  | equal => ['=']

/-- A text that consists of tokens, each with any blanks in front of it. -/
inductive Spaced : List (List Char) → List Char → Prop
  | nil : Spaced [] []
  | cons {blanks token text : List Char} {tokens : List (List Char)}
      (hblanks : ∀ c ∈ blanks, isSpace c) (h : Spaced tokens text) :
      Spaced (token :: tokens) (blanks ++ (token ++ text))

/-- There need not be blanks. -/
theorem Spaced.next {token text : List Char} {tokens : List (List Char)} (h : Spaced tokens text) :
    Spaced (token :: tokens) (token ++ text) := by
  have hnone : ∀ c ∈ ([] : List Char), isSpace c := by simp
  exact .cons hnone h

theorem Spaced.of_append {front back : List (List Char)} {text : List Char}
    (h : Spaced (front ++ back) text) :
    ∃ first second, Spaced front first ∧ Spaced back second ∧ text = first ++ second := by
  induction front generalizing text with
  | nil => exact ⟨[], text, .nil, h, rfl⟩
  | cons token front ih =>
    cases h with
    | cons hblanks h =>
      obtain ⟨first, second, hfirst, hsecond, rfl⟩ := ih h
      exact ⟨_, second, .cons hblanks hfirst, hsecond, by simp only [List.append_assoc]⟩

theorem Spaced.of_cons {token : List Char} {tokens : List (List Char)} {text : List Char}
    (h : Spaced (token :: tokens) text) :
    ∃ blanks rest, (∀ c ∈ blanks, isSpace c) ∧ Spaced tokens rest ∧
      text = blanks ++ (token ++ rest) := by
  cases h with
  | cons hblanks h => exact ⟨_, _, hblanks, h, rfl⟩

/-! ## Trees -/

/-- The categories of the grammar, from the loosest to the tightest. -/
inductive Category
  | expression
  | sum
  | product
  | signed
  | power
  | operand
  deriving DecidableEq, Repr

/-- The derivations of the grammar. -/
inductive Tree : Category → Type
  | plain (x : Tree .sum) : Tree .expression
  | related (x : Tree .sum) (r : Relation) (y : Tree .sum) : Tree .expression
  | term (x : Tree .product) : Tree .sum
  | sum (x : Tree .sum) (o : Sign) (y : Tree .product) : Tree .sum
  | factor (x : Tree .signed) : Tree .product
  | product (x : Tree .product) (o : Scaling) (y : Tree .signed) : Tree .product
  | unsigned (x : Tree .power) : Tree .signed
  | signed (o : Sign) (x : Tree .signed) : Tree .signed
  | base (x : Tree .operand) : Tree .power
  | power (x : Tree .operand) (y : Tree .signed) : Tree .power
  | number (n : Literal) : Tree .operand
  | text (s : List Char) (h : '"' ∉ s) : Tree .operand
  | named (n : Identifier) : Tree .operand
  | enclosed (x : Tree .expression) : Tree .operand

/-- The tokens of a tree from left to right. -/
def Tree.tokens : {c : Category} → Tree c → List (List Char)
  | _, plain x | _, term x | _, factor x | _, unsigned x | _, base x => x.tokens
  | _, related x r y => x.tokens ++ r.token :: y.tokens
  | _, sum x o y => x.tokens ++ [o.mark] :: y.tokens
  | _, product x o y => x.tokens ++ [o.mark] :: y.tokens
  | _, signed o x => [o.mark] :: x.tokens
  | _, power x y => x.tokens ++ ['^'] :: y.tokens
  | _, number n => [n.token]
  | _, text s _ => ['"' :: (s ++ ['"'])]
  | _, named n => [n.token]
  | _, enclosed x => ['('] :: (x.tokens ++ [[')']])

/-! ## Values -/

/-- An operation on two numbers; other operands do not match it. -/
def calculated (f : Float → Float → Float) : Value → Value → Except Fault Value
  | .number a, .number b => .ok (.number (f a b))
  | _, _ => .error .typeMismatch

/-- An operation on one number. -/
def adjusted (f : Float → Float) : Value → Except Fault Value
  | .number a => .ok (.number (f a))
  | .text _ => .error .typeMismatch

/-- Numbers are added and texts are joined; only numbers are subtracted. -/
def Sign.combined : Sign → Value → Value → Except Fault Value
  | plus, .text s, .text t => .ok (.text (s ++ t))
  | plus, x, y => calculated (· + ·) x y
  | minus, x, y => calculated (· - ·) x y

def Sign.applied : Sign → Value → Except Fault Value
  | plus => adjusted id
  | minus => adjusted (- ·)

/-- Nothing can be divided by zero, not even a text. -/
def Scaling.combined : Scaling → Value → Value → Except Fault Value
  | times, x, y => calculated (· * ·) x y
  | dividedBy, x, .number b =>
    if b == 0 then .error .divisionByZero else calculated (· / ·) x (.number b)
  | dividedBy, _, .text _ => .error .typeMismatch

/-- Whether a relation holds of values in an order; values without one only differ. -/
def Relation.admits : Relation → Option Ordering → Bool
  | r, none => r = different
  | atMost, some o => o ≠ .gt
  | atLeast, some o => o ≠ .lt
  | different, some o => o ≠ .eq
  | less, some o => o = .lt
  | greater, some o => o = .gt
  | equal, some o => o = .eq

/-- A relation that holds is one, any other is zero. -/
def Relation.compared (r : Relation) (x y : Value) : Except Fault Value :=
  (x.order y).map fun o => .number (if r.admits o then 1 else 0)

/-- What a tree comes to. Operands are computed from left to right before they are combined. -/
def Tree.value (v : Variables) : {c : Category} → Tree c → Except Fault Value
  | _, plain x | _, term x | _, factor x | _, unsigned x | _, base x | _, enclosed x => x.value v
  | _, related x r y => do r.compared (← x.value v) (← y.value v)
  | _, sum x o y => do o.combined (← x.value v) (← y.value v)
  | _, product x o y => do o.combined (← x.value v) (← y.value v)
  | _, signed o x => do o.applied (← x.value v)
  | _, power x y => do calculated (· ^ ·) (← x.value v) (← y.value v)
  | _, number n => .ok (.number n.value)
  | _, text s _ => .ok (.text s)
  | _, named n => .ok (v.value n.name)

end Cpm80.Basic
