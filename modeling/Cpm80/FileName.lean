import Cpm80.Text.Blank
import Cpm80.Text.Utf8

/-!
# File names

A name on a drive is trimmed, in upper case, and holds nothing that a host path or a drive
letter could be read into. Names of up to eight characters with an extension of up to three
have a padded form of eleven bytes, in which a file control block carries them; the high bit
of each byte is free for attributes. A pattern is matched against a name through that form.
-/
namespace Cpm80.FileName

/-- The characters of the control category. -/
def isControl (c : Char) : Bool :=
  c.toNat < 0x20 || (0x7F ≤ c.toNat && c.toNat ≤ 0x9F)

/-- The normal form of a name; nothing if it cannot be the name of a file on a drive. -/
def normalize? (name : String) : Option String :=
  let trimmed := Text.trim name.toList
  if trimmed.isEmpty ∨ trimmed = ['.'] ∨ trimmed = ['.', '.'] ∨
      trimmed.any (fun c => c = '/' || c = '\\' || c = ':' || isControl c) then
    none
  else some (String.ofList (Text.upper trimmed))

/-- Printable ASCII other than the space and the wildcards. -/
def isPlain (c : Char) : Bool :=
  0x21 ≤ c.toNat && c.toNat ≤ 0x7E && c ≠ '*' && c ≠ '?'

/-- Whether a name is a base of one to eight characters with an extension of at most three. -/
def isShort (name : String) : Bool :=
  let base := name.toList.takeWhile (· ≠ '.')
  let extension := (name.toList.dropWhile (· ≠ '.')).drop 1
  !base.isEmpty && base.length ≤ 8 && extension.length ≤ 3 && !extension.contains '.' &&
    name.toList.all isPlain

/-- The text before and after the last dot; without a dot all of it is in front. -/
def splitAtLastDot (s : List Char) : List Char × List Char :=
  match s.reverse.dropWhile (· ≠ '.') with
  | [] => (s, [])
  | _ :: front => (front.reverse, (s.reverse.takeWhile (· ≠ '.')).reverse)

/-- Pads or cuts to `width` bytes; an asterisk fills the rest with question marks. -/
def fillField : (width : Nat) → List UInt8 → List UInt8
  | 0, _ => []
  | width + 1, [] => List.replicate (width + 1) 0x20
  | width + 1, c :: rest =>
    if c = 0x2A then List.replicate (width + 1) 0x3F else c :: fillField width rest

@[simp] theorem length_fillField (width : Nat) (part : List UInt8) :
    (fillField width part).length = width := by
  induction width generalizing part with
  | zero => rfl
  | succ width ih =>
    cases part with
    | nil => simp [fillField]
    | cons c rest =>
      simp only [fillField]
      split <;> simp [ih]

/-- The eleven-byte form of a name or pattern. -/
def padded (name : String) : List UInt8 :=
  let (base, extension) := splitAtLastDot (Text.upper (Text.trim name.toList))
  fillField 8 (Utf8.encode base) ++ fillField 3 (Utf8.encode extension)

@[simp] theorem length_padded (name : String) : (padded name).length = 11 := by
  simp [padded]

/-- The text in a field of the padded form, attributes and padding removed. -/
def fieldText (field : List UInt8) : List Char :=
  Text.trimEnd (field.map fun b => Char.ofNat (b &&& 0x7F).toNat)

/-- The name in a padded form. -/
def ofPadded (raw : List UInt8) : String :=
  let base := fieldText (raw.take 8)
  let extension := fieldText ((raw.drop 8).take 3)
  String.ofList (if extension.isEmpty then base else base ++ '.' :: extension)

/-- A question mark stands for any byte, padding included. -/
def paddedMatches (name pattern : List UInt8) : Bool :=
  (name.zip pattern).all fun (n, p) => p = 0x3F || p = n

def isMatch (name pattern : String) : Bool :=
  paddedMatches (padded name) (padded pattern)

end Cpm80.FileName
