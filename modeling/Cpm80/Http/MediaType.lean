/-!
# Tokens and media types

The names in a message, of methods, headers and media types, are tokens: they are made of
letters, digits and a few signs.

A media type is a type and a subtype with a slash between them, and parameters after
semicolons. A suffix of the subtype starts at its last plus sign. Only the two names without
the suffix matter here, but a faulty suffix or parameter makes it no media type.
-/
namespace Cpm80.Http

def tokenSigns : List Char :=
  ['!', '#', '$', '%', '&', '\'', '*', '+', '-', '.', '^', '_', '\x60', '|', '~']

def isToken (c : Char) : Bool :=
  c.isAlphanum || tokenSigns.contains c

namespace MediaType

/-- The characters of a value in quotes. -/
def isQuoted (c : Char) : Bool :=
  0x20 ≤ c.toNat && c.toNat ≤ 0x7E

/-- Where a reader of parameters stands. -/
inductive State
  /-- Before the first character of a name. -/
  | start
  | name
  /-- Behind an equals sign. -/
  | value
  | bare
  /-- Inside quotes, with nothing in them so far or with something. -/
  | quoted (isEmpty : Bool)
  | closed
  deriving DecidableEq, Repr

/-- The state after one more character; none after a fault. A value in quotes is not empty, so
a quote right after the first one is a part of it. -/
def State.next? (s : State) (c : Char) : Option State :=
  match s with
  | start => if c = ' ' then some start else if isToken c then some name else none
  | name => if c = '=' then some value else if isToken c then some name else none
  | value => if c = '"' then some (quoted true) else if isToken c then some bare else none
  | bare => if c = ';' then some start else if isToken c then some bare else none
  | quoted isEmpty =>
    if c = '"' ∧ !isEmpty then some closed
    else if isQuoted c then some (quoted false)
    else none
  | closed => if c = ';' then some start else if c = ' ' then some closed else none

/-- Whether the parameters may end in a state. -/
def State.mayEnd : State → Bool
  | start | value | bare | closed => true
  | _ => false

/-- Whether a text is a list of parameters. -/
def areParameters (s : List Char) : Bool :=
  match s.foldlM State.next? .start with
  | some state => state.mayEnd
  | none => false

/-- A subtype without its suffix. A plus sign in front starts none. -/
def withoutSuffix : List Char → List Char
  | [] => []
  | c :: rest =>
    match rest.reverse.dropWhile (· ≠ '+') with
    | [] => c :: rest
    | _ :: front => c :: front.reverse

/-- Whether a text is the media type with the two names, in any letters. -/
def isType (type subtype : String) (s : List Char) : Bool :=
  let rest := (s.dropWhile (· ≠ '/')).drop 1
  let found := rest.takeWhile (· ≠ ';')
  (s.takeWhile (· ≠ '/')).map Char.toLower = type.toList && found.all isToken &&
    (withoutSuffix found).map Char.toLower = subtype.toList &&
    areParameters ((rest.dropWhile (· ≠ ';')).drop 1)

end MediaType

end Cpm80.Http
