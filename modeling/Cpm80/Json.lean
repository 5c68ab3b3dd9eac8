import Cpm80.Text.Numeral
import Cpm80.Text.Utf8

/-!
# JSON

Values and their text. Reading works on bytes and is strict about the grammar. A value that
is never looked at need not make sense, so a string whose bytes or escapes spell no text and
a number outside 64 bits are still values; what asks for their content is refused. The reader
keeps the open brackets on a stack, so nesting costs no recursion.
-/
namespace Cpm80

inductive Json
  | null
  | bool (b : Bool)
  /-- A number written without fraction or exponent that fits 64 bits. -/
  | integer (n : Int)
  /-- Any other number, as it was written. -/
  | real (digits : String)
  /-- A string; absent content means that its bytes or escapes spell no text. -/
  | string (content : Option String)
  | array (items : List Json)
  | object (fields : List (Option String × Json))

namespace Json

def ofText (s : String) : Json := string (some s)
def ofNat (n : Nat) : Json := integer n
def ofFields (fields : List (String × Json)) : Json :=
  object (fields.map fun f => (some f.1, f.2))

/-! ## Reading -/

def isBlank (b : UInt8) : Bool :=
  b = 0x20 || b = 0x0A || b = 0x0D || b = 0x09

def isDigit (b : UInt8) : Bool :=
  0x30 ≤ b && b ≤ 0x39

def skipBlanks (s : List UInt8) : List UInt8 :=
  s.dropWhile isBlank

def hexValue? (b : UInt8) : Option Nat :=
  if isDigit b then some (b.toNat - 0x30)
  else if 0x41 ≤ b && b ≤ 0x46 then some (b.toNat - 0x37)
  else if 0x61 ≤ b && b ≤ 0x66 then some (b.toNat - 0x57)
  else none

/-- Four hexadecimal digits. -/
def hexWord? : List UInt8 → Option (Nat × List UInt8)
  | a :: b :: c :: d :: rest => do
    let a ← hexValue? a
    let b ← hexValue? b
    let c ← hexValue? c
    let d ← hexValue? d
    some (((a * 16 + b) * 16 + c) * 16 + d, rest)
  | _ => none

/-- The meaning of an escape of one letter. -/
def escape? (b : UInt8) : Option UInt8 :=
  match Char.ofNat b.toNat with
  | '"' => some 0x22
  | '\\' => some 0x5C
  | '/' => some 0x2F
  | 'b' => some 0x08
  | 'f' => some 0x0C
  | 'n' => some 0x0A
  | 'r' => some 0x0D
  | 't' => some 0x09
  | _ => none

/-- A string being read: its bytes in reverse, and whether all escapes made sense. -/
structure Spelling where
  reversed : List UInt8 := []
  sound : Bool := true

def Spelling.add (s : Spelling) (bytes : List UInt8) : Spelling :=
  { s with reversed := bytes.reverse ++ s.reversed }

def Spelling.content (s : Spelling) : Option String :=
  if s.sound then (Utf8.decode? s.reversed.reverse).map String.ofList else none

/-- Reads a string whose opening quote has been taken. A pair of surrogate escapes is one
character, a lone one spells nothing. The fuel is the number of bytes. -/
def readString : (fuel : Nat) → Spelling → List UInt8 → Option (Option String × List UInt8)
  | 0, _, _ => none
  | _ + 1, _, [] => none
  | fuel + 1, s, b :: rest =>
    if b = 0x22 then some (s.content, rest)
    else if b < 0x20 then none
    else if b = 0x5C then
      match rest with
      | [] => none
      | e :: rest =>
        if e = 0x75 then
          match hexWord? rest with
          | none => none
          | some (unit, rest) =>
            if 0xDC00 ≤ unit ∧ unit ≤ 0xDFFF then readString fuel { s with sound := false } rest
            else if 0xD800 ≤ unit ∧ unit ≤ 0xDBFF then
              match rest with
              | 0x5C :: 0x75 :: after =>
                match hexWord? after with
                | none => none
                | some (low, after) =>
                  if 0xDC00 ≤ low ∧ low ≤ 0xDFFF then
                    let c := Char.ofNat (0x10000 + (unit - 0xD800) * 0x400 + (low - 0xDC00))
                    readString fuel (s.add (String.utf8EncodeChar c)) after
                  else readString fuel { s with sound := false } after
              | _ => readString fuel { s with sound := false } rest
            else readString fuel (s.add (String.utf8EncodeChar (Char.ofNat unit))) rest
        else
          match escape? e with
          | none => none
          | some v => readString fuel (s.add [v]) rest
    else readString fuel (s.add [b]) rest

/-- One or more digits, without the ones after them. -/
def digits? (s : List UInt8) : Option (List UInt8 × List UInt8) :=
  match s.takeWhile isDigit with
  | [] => none
  | ds => some (ds, s.dropWhile isDigit)

/-- The digits before the point: a single zero or no zero in front. -/
def wholePart? : List UInt8 → Option (List UInt8 × List UInt8)
  | 0x30 :: rest =>
    match rest with
    | d :: _ => if isDigit d then none else some ([0x30], rest)
    | [] => some ([0x30], [])
  | s => digits? s

def fraction? : List UInt8 → Option (List UInt8 × List UInt8)
  | 0x2E :: rest => (digits? rest).map fun (ds, rest) => (0x2E :: ds, rest)
  | s => some ([], s)

def exponent? : List UInt8 → Option (List UInt8 × List UInt8)
  | e :: rest =>
    if e = 0x65 ∨ e = 0x45 then
      match rest with
      | 0x2B :: rest => (digits? rest).map fun (ds, rest) => (e :: 0x2B :: ds, rest)
      | 0x2D :: rest => (digits? rest).map fun (ds, rest) => (e :: 0x2D :: ds, rest)
      | _ => (digits? rest).map fun (ds, rest) => (e :: ds, rest)
    else some ([], e :: rest)
  | [] => some ([], [])

def natOfDigits (ds : List UInt8) : Nat :=
  ds.foldl (fun n d => n * 10 + (d.toNat - 0x30)) 0

def asciiText (bytes : List UInt8) : String :=
  String.ofList (bytes.map fun b => Char.ofNat b.toNat)

/-- A number. Minus zero is not an integer. -/
def readNumber (s : List UInt8) : Option (Json × List UInt8) := do
  let (minus, s) := match s with
    | 0x2D :: rest => (true, rest)
    | _ => (false, s)
  let (whole, s) ← wholePart? s
  let (fraction, s) ← fraction? s
  let (exponent, s) ← exponent? s
  let n := natOfDigits whole
  let fits := if minus then 0 < n ∧ n ≤ 0x8000000000000000 else n ≤ 0xFFFFFFFFFFFFFFFF
  if fraction.isEmpty ∧ exponent.isEmpty ∧ fits then
    some (integer (if minus then -(n : Int) else n), s)
  else
    let sign := if minus then "-" else ""
    some (real (sign ++ asciiText (whole ++ fraction ++ exponent)), s)

/-- Takes a literal word. -/
def readWord (w : List UInt8) (v : Json) (s : List UInt8) : Option (Json × List UInt8) :=
  if w.isPrefixOf s then some (v, s.drop w.length) else none

/-- A value that is not an array or an object. -/
def readScalar : List UInt8 → Option (Json × List UInt8)
  | [] => none
  | b :: rest =>
    if b = 0x22 then
      (readString (rest.length + 1) {} rest).map fun (content, rest) => (string content, rest)
    else if b = 0x6E then readWord [0x6E, 0x75, 0x6C, 0x6C] null (b :: rest)
    else if b = 0x74 then readWord [0x74, 0x72, 0x75, 0x65] (bool true) (b :: rest)
    else if b = 0x66 then readWord [0x66, 0x61, 0x6C, 0x73, 0x65] (bool false) (b :: rest)
    else readNumber (b :: rest)

/-- A key with the colon after it. -/
def readKey (s : List UInt8) : Option (Option String × List UInt8) :=
  match skipBlanks s with
  | 0x22 :: rest =>
    match readString (rest.length + 1) {} rest with
    | some (key, rest) =>
      match skipBlanks rest with
      | 0x3A :: rest => some (key, rest)
      | _ => none
    | none => none
  | _ => none

/-- An open bracket with what has been read inside it, latest first. -/
inductive Open
  | array (items : List Json)
  | object (fields : List (Option String × Json)) (key : Option String)

/-- Where the reader stands: before a value, or after one. -/
inductive Position
  | before
  | after (v : Json)

/-- Reads one value with whatever brackets are open around it. Every step takes a byte or
closes a scalar, so twice the number of bytes is enough fuel. -/
def readOpen : (fuel : Nat) → Position → List Open → List UInt8 → Option (Json × List UInt8)
  | 0, _, _, _ => none
  | fuel + 1, .before, stack, s =>
    match skipBlanks s with
    | 0x5B :: rest =>
      match skipBlanks rest with
      | 0x5D :: rest => readOpen fuel (.after (array [])) stack rest
      | rest => readOpen fuel .before (.array [] :: stack) rest
    | 0x7B :: rest =>
      match skipBlanks rest with
      | 0x7D :: rest => readOpen fuel (.after (object [])) stack rest
      | rest =>
        match readKey rest with
        | some (key, rest) => readOpen fuel .before (.object [] key :: stack) rest
        | none => none
    | s =>
      match readScalar s with
      | some (v, rest) => readOpen fuel (.after v) stack rest
      | none => none
  | _ + 1, .after v, [], s => some (v, s)
  | fuel + 1, .after v, .array items :: stack, s =>
    match skipBlanks s with
    | 0x2C :: rest => readOpen fuel .before (.array (v :: items) :: stack) rest
    | 0x5D :: rest => readOpen fuel (.after (array (v :: items).reverse)) stack rest
    | _ => none
  | fuel + 1, .after v, .object fields key :: stack, s =>
    match skipBlanks s with
    | 0x2C :: rest =>
      match readKey rest with
      | some (next, rest) => readOpen fuel .before (.object ((key, v) :: fields) next :: stack) rest
      | none => none
    | 0x7D :: rest => readOpen fuel (.after (object ((key, v) :: fields).reverse)) stack rest
    | _ => none

/-- Reads bytes that hold one value and nothing else but blanks. -/
def read? (s : List UInt8) : Option Json :=
  match readOpen (2 * s.length + 2) .before [] s with
  | some (v, rest) => if (skipBlanks rest).isEmpty then some v else none
  | none => none

/-! ## Looking inside -/

/-- The first value under a key of an object. -/
def field? (key : String) : Json → Option Json
  | object fields => fields.lookup (some key)
  | _ => none

def items : Json → List Json
  | array xs => xs
  | _ => []

def text? : Json → Option String
  | string s => s
  | _ => none

def nat? : Json → Option Nat
  | integer (.ofNat n) => some n
  | _ => none

def int? : Json → Option Int
  | integer n => some n
  | _ => none

def bool? : Json → Option Bool
  | bool b => some b
  | _ => none

/-! ## Writing -/

/-- The escape of a code unit. -/
def escapeUnit (n : Nat) : String :=
  "\\u" ++ String.ofList (Hex.digits 4 n)

/-- A character inside quotes; anything but printable ASCII is escaped. -/
def quoteChar (c : Char) : String :=
  if c = '"' then "\\\""
  else if c = '\\' then "\\\\"
  else if 0x20 ≤ c.toNat ∧ c.toNat ≤ 0x7E then String.singleton c
  else if c.toNat < 0x10000 then escapeUnit c.toNat
  else
    let n := c.toNat - 0x10000
    escapeUnit (0xD800 + n / 0x400) ++ escapeUnit (0xDC00 + n % 0x400)

def quote (s : String) : String :=
  s.toList.foldl (fun out c => out ++ quoteChar c) "\"" ++ "\""

mutual

def render : Json → String
  | null => "null"
  | bool b => if b then "true" else "false"
  | integer n => n.repr
  | real digits => digits
  | string s => quote (s.getD "")
  | array xs => "[" ++ ",".intercalate (renderItems xs) ++ "]"
  | object fields => "\x7b" ++ ",".intercalate (renderFields fields) ++ "\x7d"

def renderItems : List Json → List String
  | [] => []
  | v :: vs => render v :: renderItems vs

def renderFields : List (Option String × Json) → List String
  | [] => []
  | (key, v) :: rest => (quote (key.getD "") ++ ":" ++ render v) :: renderFields rest

end

end Json

end Cpm80
