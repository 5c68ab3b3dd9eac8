import Cpm80.Text.Utf8

/-!
# Targets of requests

A target is a path and, after a question mark, a query. A scheme and an authority may stand in
front of it, or an authority or an asterisk alone in its place; what follows a number sign does
not count. The path is cut at its slashes and its parts are taken as they are. A query is a list
of fields; in it a plus sign is a blank and a percent sign with two hexadecimal digits is a byte.
-/
namespace Cpm80.Http

structure Target where
  path : List Char := []
  query : List Char := []
  deriving DecidableEq, Repr

/-! ## Paths and queries -/

/-- The characters of a path. -/
def isPathChar (c : Char) : Bool :=
  0x21 ≤ c.toNat && c.toNat ≤ 0x7E && c ∉ ['#', '<', '>', '?', '\x60']

/-- The characters of a query. -/
def isQueryChar (c : Char) : Bool :=
  0x21 ≤ c.toNat && c.toNat ≤ 0x7E && c ∉ ['"', '#', '<', '>']

/-- Reads a path and a query, up to a number sign. An empty path is the one of a slash. -/
def pathAndQuery? (s : List Char) : Option Target :=
  let s := s.takeWhile (· ≠ '#')
  let path := s.takeWhile (· ≠ '?')
  let query := (s.dropWhile (· ≠ '?')).drop 1
  if path.all isPathChar ∧ query.all isQueryChar then
    some ⟨if path.isEmpty then ['/'] else path, query⟩
  else none

/-! ## Schemes and authorities -/

/-- The characters of the name of a scheme. -/
def isSchemeChar (c : Char) : Bool :=
  c.isAlphanum || ['+', '-', '.', '~'].contains c

/-- The longest name of a scheme. -/
def maxScheme : Nat := 64

/-- The name of the scheme in front of `s`, and what follows its two slashes. -/
def scheme? (s : List Char) : Option (List Char × List Char) :=
  match s.dropWhile isSchemeChar with
  | ':' :: '/' :: '/' :: rest => some (s.takeWhile isSchemeChar, rest)
  | _ => none

/-- The characters of an authority that mean nothing but themselves. -/
def isAuthorityChar (c : Char) : Bool :=
  c.isAlphanum ||
    ['!', '$', '&', '\'', '(', ')', '*', '+', ',', '-', '.', ';', '=', '_', '~'].contains c

/-- What a reader of an authority has seen. Colons and percent signs count anew after the name of
a user and after an address in brackets. -/
structure AuthorityState where
  colons : Nat := 0
  opened : Bool := false
  closed : Bool := false
  percent : Bool := false

/-- The most colons between two points where they count anew. -/
def maxColons : Nat := 8

/-- The state after one more character; none after a fault. -/
def AuthorityState.next? (s : AuthorityState) (c : Char) : Option AuthorityState :=
  match c with
  | ':' => if s.colons < maxColons then some { s with colons := s.colons + 1 } else none
  | '[' => if s.percent ∨ s.opened then none else some { s with opened := true }
  | ']' =>
    if s.opened ∧ !s.closed then some { s with closed := true, colons := 0, percent := false }
    else none
  | '@' => some { s with colons := 0, percent := false }
  | '%' => some { s with percent := true }
  | c => if isAuthorityChar c then some s else none

/-- Whether an authority may end in a state: with at most one colon, for a port. -/
def AuthorityState.mayEnd (s : AuthorityState) : Bool :=
  s.opened == s.closed && s.colons ≤ 1 && !s.percent

/-- Whether `s` is an authority: an optional user, a host and an optional port. -/
def isAuthority (s : List Char) : Bool :=
  match s.foldlM AuthorityState.next? {} with
  | some state => state.mayEnd && s.getLast? != some '@'
  | none => false

/-- The longest target, in bytes. -/
def maxTarget : Nat := 65534

/-- Reads a target. An authority alone has an empty path. -/
def Target.read? (s : List Char) : Option Target :=
  if maxTarget < (Utf8.encode s).length then none
  else
    match s with
    | [] => none
    | ['*'] => some { path := ['*'] }
    | '/' :: _ => pathAndQuery? s
    | _ =>
      match scheme? s with
      | none => if isAuthority s then some {} else none
      | some (scheme, rest) =>
        let inAuthority (c : Char) : Bool := c ∉ ['/', '?', '#']
        let authority := rest.takeWhile inAuthority
        if scheme.length ≤ maxScheme ∧ !authority.isEmpty ∧ isAuthority authority then
          pathAndQuery? (rest.dropWhile inAuthority)
        else none

/-! ## Parts and fields -/

/-- The parts of a text between the characters `c`. -/
def partsAt (c : Char) (s : List Char) : List (List Char) :=
  match s with
  | [] => [[]]
  | d :: rest =>
    if d = c then [] :: partsAt c rest
    else
      match partsAt c rest with
      | [] => [[d]]
      | part :: parts => (d :: part) :: parts

/-- The parts of a path. A slash in front is dropped, and one at the end as well. -/
def pathParts (path : List Char) : List (List Char) :=
  let path := match path with
    | '/' :: rest => rest
    | rest => rest
  let parts := partsAt '/' path
  if parts.getLast? = some [] then parts.dropLast else parts

def hexDigit? (b : UInt8) : Option UInt8 :=
  if 0x30 ≤ b ∧ b ≤ 0x39 then some (b - 0x30)
  else if 0x41 ≤ b ∧ b ≤ 0x46 then some (b - 0x37)
  else if 0x61 ≤ b ∧ b ≤ 0x66 then some (b - 0x57)
  else none

/-- The bytes that the bytes of a query stand for. A percent sign without two digits after it
stands for itself. -/
def unescape : List UInt8 → List UInt8
  | [] => []
  | 0x2B :: rest => 0x20 :: unescape rest
  | 0x25 :: high :: low :: rest =>
    match hexDigit? high, hexDigit? low with
    | some a, some b => (a * 16 + b) :: unescape rest
    | _, _ => 0x25 :: unescape (high :: low :: rest)
  | b :: rest => b :: unescape rest
termination_by s => s.length

def unescapeText (s : List Char) : String :=
  String.ofList (Utf8.decodeLenient (unescape (Utf8.encode s)))

/-- The fields of a query with their values; a field without an equals sign has an empty
value. -/
def queryFields (query : List Char) : List (String × String) :=
  ((partsAt '&' query).filter fun part => !part.isEmpty).map fun part =>
    (unescapeText (part.takeWhile (· ≠ '=')),
      unescapeText ((part.dropWhile (· ≠ '=')).drop 1))

end Cpm80.Http
