/-!
# UTF-8

Text is kept as characters and files as bytes. Characters are written in their UTF-8 form.
Reading walks over the bytes: each step takes either a whole character or the longest run of
bytes that started like one and then broke off. Two readers share that step: the strict one
refuses a broken run, the lenient one shows it as a single replacement character.
-/
namespace Cpm80.Utf8

def encode (text : List Char) : List UInt8 :=
  text.flatMap String.utf8EncodeChar

theorem encode_append (s t : List Char) : encode (s ++ t) = encode s ++ encode t := by
  simp [encode]

/-- What the first byte of a longer form promises: the bits it contributes, the range of the
second byte, and how many further bytes follow. -/
structure Lead where
  bits : Nat
  low : UInt8
  high : UInt8
  more : Nat

def lead? (b : UInt8) : Option Lead :=
  if b < 0xC2 then none
  else if b < 0xE0 then some ⟨b.toNat - 0xC0, 0x80, 0xBF, 0⟩
  else if b = 0xE0 then some ⟨0, 0xA0, 0xBF, 1⟩
  else if b = 0xED then some ⟨0xD, 0x80, 0x9F, 1⟩
  else if b < 0xF0 then some ⟨b.toNat - 0xE0, 0x80, 0xBF, 1⟩
  else if b = 0xF0 then some ⟨0, 0x90, 0xBF, 2⟩
  else if b < 0xF4 then some ⟨b.toNat - 0xF0, 0x80, 0xBF, 2⟩
  else if b = 0xF4 then some ⟨4, 0x80, 0x8F, 2⟩
  else none

/-- Takes `more` continuation bytes, after `bits` have been read. -/
def finish : (more bits : Nat) → List UInt8 → Option Char × List UInt8
  | 0, bits, rest => (some (Char.ofNat bits), rest)
  | _ + 1, _, [] => (none, [])
  | more + 1, bits, c :: rest =>
    if 0x80 ≤ c ∧ c ≤ 0xBF then finish more (bits * 64 + (c.toNat - 0x80)) rest
    else (none, c :: rest)

/-- The character at the front, or nothing for a broken run, and the bytes after it. -/
def next (b : UInt8) (rest : List UInt8) : Option Char × List UInt8 :=
  if b < 0x80 then (some (Char.ofNat b.toNat), rest)
  else
    match lead? b, rest with
    | none, _ => (none, rest)
    | some _, [] => (none, [])
    | some q, c :: tail =>
      if q.low ≤ c ∧ c ≤ q.high then finish q.more (q.bits * 64 + (c.toNat - 0x80)) tail
      else (none, rest)

theorem length_finish (more bits : Nat) (bytes : List UInt8) :
    (finish more bits bytes).2.length ≤ bytes.length := by
  induction more generalizing bits bytes with
  | zero => simp [finish]
  | succ more ih =>
    cases bytes with
    | nil => simp [finish]
    | cons c rest =>
      simp only [finish]
      split
      · exact Nat.le_trans (ih _ _) (by simp)
      · simp

theorem length_next (b : UInt8) (rest : List UInt8) : (next b rest).2.length ≤ rest.length := by
  unfold next
  split
  · simp
  · split
    · simp
    · simp
    · split
      · exact Nat.le_trans (length_finish _ _ _) (by simp)
      · simp

/-- Reads all of `bytes`, putting `broken` for every broken run, after the characters `done`
read so far, which are kept in reverse. -/
def decodeFrom (broken : Char) (done : List Char) : List UInt8 → List Char
  | [] => done.reverse
  | b :: rest =>
    have := length_next b rest
    decodeFrom broken ((next b rest).1.getD broken :: done) (next b rest).2
termination_by bytes => bytes.length

/-- Reads any bytes as text. -/
def decodeLenient (bytes : List UInt8) : List Char :=
  decodeFrom '\uFFFD' [] bytes

/-- Whether the bytes are the UTF-8 form of a text. -/
def isValid : List UInt8 → Bool
  | [] => true
  | b :: rest =>
    have := length_next b rest
    (next b rest).1.isSome && isValid (next b rest).2
termination_by bytes => bytes.length

/-- Reads bytes that are the UTF-8 form of a text. -/
def decode? (bytes : List UInt8) : Option (List Char) :=
  if isValid bytes then some (decodeLenient bytes) else none

end Cpm80.Utf8
