import Cpm80.Text.Numeral

/-!
# Internet addresses

An address has four bytes or eight groups of sixteen bits. The short form is read and written
as decimal bytes with points between them. The long form is written in lower-case hexadecimal
groups, with the first of the longest runs of two or more zero groups left out, and an
address of the short form inside the long one keeps its points.
-/
namespace Cpm80

inductive IpAddress
  | v4 (bytes : Vector UInt8 4)
  | v6 (groups : Vector UInt16 8)
  deriving DecidableEq, Repr

namespace IpAddress

/-! ## Reading -/

/-- Whether a character is a digit of a base up to sixteen. -/
def isDigitOf (base : Nat) (c : Char) : Bool :=
  (Numeral.digit? c).any (· < base)

/-- A number of at most `width` digits, with what follows its digits. -/
def number? (base width : Nat) (s : List Char) : Option (Nat × List Char) :=
  let digits := s.takeWhile (isDigitOf base)
  if width < digits.length then none
  else (Numeral.nat? base digits).map fun n => (n, s.dropWhile (isDigitOf base))

/-- A byte in decimal, without needless zeros in front. -/
def byte? (s : List Char) : Option (UInt8 × List Char) :=
  match number? 10 3 s with
  | some (n, rest) =>
    if 255 < n ∨ (s.head? = some '0' ∧ rest.length + 1 < s.length) then none
    else some (UInt8.ofNat n, rest)
  | none => none

/-- A byte after a point. -/
def pointByte? : List Char → Option (UInt8 × List Char)
  | '.' :: rest => byte? rest
  | _ => none

/-- Four bytes with points between them. -/
def bytes? (s : List Char) : Option (Vector UInt8 4 × List Char) := do
  let (a, s) ← byte? s
  let (b, s) ← pointByte? s
  let (c, s) ← pointByte? s
  let (d, s) ← pointByte? s
  some (#v[a, b, c, d], s)

/-- The place of a group: the first one stands at the front, others follow a colon. -/
def groupPlace? (isFirst : Bool) (s : List Char) : Option (List Char) :=
  if isFirst then some s
  else
    match s with
    | ':' :: rest => some rest
    | _ => none

/-- Groups that have been read, whether the last two were bytes with points, and the rest. -/
structure Groups where
  groups : List UInt16
  endsInBytes : Bool
  rest : List Char

def pair (high low : UInt8) : UInt16 :=
  UInt16.ofNat (high.toNat * 256 + low.toNat)

/-- Reads as many groups as follow, up to `room`; four bytes stand for two groups and come
last. -/
def readGroups : (room : Nat) → (isFirst : Bool) → List Char → Groups
  | 0, _, s => ⟨[], false, s⟩
  | room + 1, isFirst, s =>
    match groupPlace? isFirst s with
    | none => ⟨[], false, s⟩
    | some t =>
      match if room = 0 then none else bytes? t with
      | some (b, rest) => ⟨[pair b[0] b[1], pair b[2] b[3]], true, rest⟩
      | none =>
        match number? 16 4 t with
        | some (g, rest) =>
          let more := readGroups room false rest
          { more with groups := UInt16.ofNat g :: more.groups }
        | none => ⟨[], false, s⟩

/-- Eight groups; fewer if two colons stand for one or more zero groups. -/
def groups? (s : List Char) : Option (Vector UInt16 8 × List Char) :=
  let front := readGroups 8 true s
  if front.groups.length = 8 then
    some (Vector.ofFn fun i => front.groups.getD i 0, front.rest)
  else if front.endsInBytes then none
  else
    match front.rest with
    | ':' :: ':' :: rest =>
      let back := readGroups (7 - front.groups.length) true rest
      let zeros := List.replicate (8 - front.groups.length - back.groups.length) 0
      let all := front.groups ++ zeros ++ back.groups
      some (Vector.ofFn fun i => all.getD i 0, back.rest)
    | _ => none

/-- Reads a text that is an address as a whole. -/
def read? (s : List Char) : Option IpAddress :=
  match bytes? s with
  | some (b, rest) => if rest.isEmpty then some (v4 b) else none
  | none =>
    match groups? s with
    | some (g, rest) => if rest.isEmpty then some (v6 g) else none
    | none => none

/-! ## Writing -/

def renderBytes (bytes : List UInt8) : String :=
  ".".intercalate (bytes.map fun b => b.toNat.repr)

def hexGroup (g : UInt16) : String :=
  String.ofList ((Nat.toDigits 16 g.toNat))

def renderGroups (groups : List UInt16) : String :=
  ":".intercalate (groups.map hexGroup)

/-- The length of the run of zeros at the front. -/
def zerosAt (groups : List UInt16) : Nat :=
  (groups.takeWhile (· = 0)).length

/-- Where the longest run of zeros begins, of several the first, and how long it is. -/
def longestZeros (groups : List UInt16) : Nat × Nat :=
  (List.range groups.length).foldl (fun (start, length) i =>
    let n := zerosAt (groups.drop i)
    if length < n then (i, n) else (start, length)) (0, 0)

/-- The bytes of an address that is the long form of a short one. -/
def embedded? (groups : List UInt16) : Option (List UInt8) :=
  match groups with
  | [0, 0, 0, 0, 0, 0xFFFF, a, b] => some [(a >>> 8).toUInt8, a.toUInt8, (b >>> 8).toUInt8, b.toUInt8]
  | _ => none

def render : IpAddress → String
  | v4 bytes => renderBytes bytes.toList
  | v6 groups =>
    match embedded? groups.toList with
    | some bytes => "::ffff:" ++ renderBytes bytes
    | none =>
      let (start, length) := longestZeros groups.toList
      if 1 < length then
        renderGroups (groups.toList.take start) ++ "::" ++
          renderGroups (groups.toList.drop (start + length))
      else renderGroups groups.toList

/-- The address with a port; brackets keep the colons of the long form apart. -/
def renderWithPort (a : IpAddress) (port : UInt16) : String :=
  match a with
  | v4 _ => a.render ++ ":" ++ port.toNat.repr
  | v6 _ => "[" ++ a.render ++ "]:" ++ port.toNat.repr

end IpAddress

end Cpm80
