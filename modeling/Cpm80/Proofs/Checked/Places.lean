import Cpm80.Text.Blank
import Cpm80.Proofs.TextBytes
import Mathlib.Data.List.TakeDrop
import Mathlib.Data.List.TakeWhile

/-!
# Places in a text

A place in a text is the number of bytes before it. A text can be cut at a place only if the place
lies within the text and between two characters; what is cut anywhere else is nothing.
-/
namespace Cpm80.Text

variable {c : Char} {s t u : List Char} {p : Char → Bool}

/-- The number of bytes of a text. -/
def size (s : List Char) : Nat :=
  (Utf8.encode s).length

@[simp] theorem size_nil : size [] = 0 := rfl

theorem size_cons (c : Char) (s : List Char) : size (c :: s) = c.utf8Size + size s := by
  rw [size, Utf8.encode, List.flatMap_cons, List.length_append, String.length_utf8EncodeChar]
  rfl

theorem size_append (s t : List Char) : size (s ++ t) = size s + size t := by
  rw [size, Utf8.encode_append, List.length_append]
  rfl

theorem size_le_of_sublist (h : List.Sublist s t) : size s ≤ size t := by
  induction h with
  | slnil => exact Nat.le_refl 0
  | @cons s t c h ih =>
    rw [size_cons]
    omega
  | @cons_cons s t c h ih =>
    rw [size_cons, size_cons]
    omega

theorem length_le_size (s : List Char) : s.length ≤ size s := by
  induction s with
  | nil => exact Nat.le_refl 0
  | cons c s ih =>
    have hc := c.utf8Size_pos
    rw [List.length_cons, size_cons]
    omega

/-- Cuts a text at a place. -/
def cut? : (place : Nat) → List Char → Option (List Char × List Char)
  | 0, s => some ([], s)
  | _ + 1, [] => none
  | place + 1, c :: s =>
    if c.utf8Size ≤ place + 1 then
      (cut? (place + 1 - c.utf8Size) s).map fun (before, after) => (c :: before, after)
    else none

/-- The text before a place. -/
def upTo? (place : Nat) (s : List Char) : Option (List Char) :=
  (cut? place s).map Prod.fst

/-- The text from a place on. -/
def from? (place : Nat) (s : List Char) : Option (List Char) :=
  (cut? place s).map Prod.snd

/-- The text between two places, of which the first must not be behind the last. -/
def slice? (first last : Nat) (s : List Char) : Option (List Char) :=
  if first ≤ last then (from? first s).bind (upTo? (last - first)) else none

/-- A text is cut between two parts of it, and nowhere else. -/
theorem cut?_eq_some_iff {place : Nat} :
    cut? place s = some (t, u) ↔ s = t ++ u ∧ size t = place := by
  induction s generalizing place t with
  | nil =>
    cases place with
    | zero =>
      rw [cut?, Option.some.injEq, Prod.mk.injEq]
      constructor
      · rintro ⟨rfl, rfl⟩
        exact ⟨rfl, rfl⟩
      · rintro ⟨hparts, -⟩
        obtain ⟨rfl, rfl⟩ := List.append_eq_nil_iff.mp hparts.symm
        exact ⟨rfl, rfl⟩
    | succ place =>
      rw [cut?]
      constructor
      · nofun
      · rintro ⟨hparts, hsize⟩
        obtain ⟨rfl, rfl⟩ := List.append_eq_nil_iff.mp hparts.symm
        cases hsize
  | cons c s ih =>
    have hc := c.utf8Size_pos
    cases t with
    | nil =>
      cases place with
      | zero => simp [cut?]
      | succ place =>
        constructor
        · intro h
          simp only [cut?] at h
          split at h
          · simp at h
          · cases h
        · rintro ⟨-, hsize⟩
          cases hsize
    | cons d t =>
      rw [List.cons_append, List.cons.injEq, size_cons]
      cases place with
      | zero =>
        constructor
        · intro h
          simp [cut?] at h
        · rintro ⟨⟨rfl, -⟩, hsize⟩
          omega
      | succ place =>
        rw [cut?]
        split
        case isTrue hle =>
          rw [Option.map_eq_some_iff]
          constructor
          · rintro ⟨⟨before, after⟩, hcut, heq⟩
            obtain ⟨⟨rfl, rfl⟩, rfl⟩ : (c = d ∧ before = t) ∧ after = u := by simpa using heq
            obtain ⟨rfl, hsize⟩ := ih.mp hcut
            exact ⟨⟨rfl, rfl⟩, by omega⟩
          · rintro ⟨⟨rfl, rfl⟩, hsize⟩
            exact ⟨(t, u), ih.mpr ⟨rfl, by omega⟩, rfl⟩
        case isFalse hlt =>
          constructor
          · nofun
          · rintro ⟨⟨rfl, -⟩, hsize⟩
            omega

-- the character has two bytes
example : cut? 1 ['é'] = none := by decide

theorem cut?_size (s t : List Char) : cut? (size s) (s ++ t) = some (s, t) :=
  cut?_eq_some_iff.mpr ⟨rfl, rfl⟩

@[simp] theorem upTo?_size (s t : List Char) : upTo? (size s) (s ++ t) = some s := by
  rw [upTo?, cut?_size, Option.map_some]

@[simp] theorem from?_size (s t : List Char) : from? (size s) (s ++ t) = some t := by
  rw [from?, cut?_size, Option.map_some]

theorem slice?_size (s t u : List Char) :
    slice? (size s) (size s + size t) (s ++ (t ++ u)) = some t := by
  rw [slice?, if_pos (Nat.le_add_right _ _), from?_size, Option.bind_some, Nat.add_sub_cancel_left,
    upTo?_size]

/-- The first place at which a character with a property begins. -/
def placeOf? (p : Char → Bool) : List Char → Option Nat
  | [] => none
  | c :: s => if p c then some 0 else (placeOf? p s).map (c.utf8Size + ·)

/-- What a search for a character comes to. -/
inductive Search (p : Char → Bool) : List Char → Option Nat → Prop
  | missed {s : List Char} (hskip : s.takeWhile (fun c => !p c) = s)
    (hrest : s.dropWhile (fun c => !p c) = []) : Search p s none
  | found {before after : List Char} {c : Char} (hc : p c = true)
    (hskip : (before ++ c :: after).takeWhile (fun c => !p c) = before)
    (hrest : (before ++ c :: after).dropWhile (fun c => !p c) = c :: after) :
    Search p (before ++ c :: after) (some (size before))

theorem search (p : Char → Bool) (s : List Char) : Search p s (placeOf? p s) := by
  induction s with
  | nil => exact .missed rfl rfl
  | cons c s ih =>
    rw [placeOf?]
    split
    case isTrue hc =>
      have hskip : (c :: s).takeWhile (fun c => !p c) = [] := by simp [hc]
      have hrest : (c :: s).dropWhile (fun c => !p c) = c :: s := by simp [hc]
      exact @Search.found p [] s c hc hskip hrest
    case isFalse hc =>
      have hskips (t : List Char) : (c :: t).takeWhile (fun c => !p c) =
          c :: t.takeWhile fun c => !p c := List.takeWhile_cons_of_pos (by simpa using hc)
      have hdrops (t : List Char) : (c :: t).dropWhile (fun c => !p c) =
          t.dropWhile fun c => !p c := List.dropWhile_cons_of_pos (by simpa using hc)
      generalize placeOf? p s = place at ih
      cases ih with
      | missed hskip hrest =>
        refine .missed ?_ ?_
        · rw [hskips, hskip]
        · rw [hdrops, hrest]
      | @found before after d hd hskip hrest =>
        rw [Option.map_some, ← size_cons]
        refine @Search.found p (c :: before) after d hd ?_ ?_
        · rw [List.cons_append, hskips, hskip]
        · rw [List.cons_append, hdrops, hrest]

/-- What is searched ends where the search ends. -/
theorem getD_placeOf? (p : Char → Bool) (s : List Char) :
    (placeOf? p s).getD (size s) = size (s.takeWhile fun c => !p c) := by
  have hsearch := search p s
  generalize placeOf? p s = place at hsearch
  cases hsearch with
  | missed hskip => rw [hskip, Option.getD_none]
  | found _ hskip => rw [hskip, Option.getD_some]

/-! ## Bytes -/

/-- The byte at a place, as the character with its number. -/
def byteAt? (s : List Char) (place : Nat) : Option Char :=
  (Utf8.encode s)[place]?.map fun b => Char.ofNat b.toNat

/-- A property that no character has but those of one byte. -/
def AsciiOnly (p : Char → Bool) : Prop :=
  ∀ c, p c = true → c.toNat < 128

theorem asciiOnly_eq (hc : c.toNat < 128) : AsciiOnly fun d => d = c := by
  intro d hd
  rwa [decide_eq_true_eq.mp hd]

/-- The place behind the bytes with a property that follow a place. -/
def runEnd (p : Char → Bool) (s : List Char) (place : Nat) : Nat :=
  place + (((Utf8.encode s).drop place).takeWhile fun b => p (Char.ofNat b.toNat)).length

theorem encode_cons (c : Char) (s : List Char) :
    Utf8.encode (c :: s) = String.utf8EncodeChar c ++ Utf8.encode s :=
  List.flatMap_cons

theorem utf8EncodeChar_of_lt (h : c.toNat < 128) :
    String.utf8EncodeChar c = [UInt8.ofNat c.toNat] := by
  have hone : c.val.toNat ≤ 0x7F := Nat.le_of_lt_succ h
  rw [String.utf8EncodeChar, if_pos hone]
  rfl

theorem utf8Size_of_lt (h : c.toNat < 128) : c.utf8Size = 1 := by
  rw [← String.length_utf8EncodeChar, utf8EncodeChar_of_lt h, List.length_singleton]

theorem ofNat_toNat_of_lt (h : c.toNat < 128) : Char.ofNat (UInt8.ofNat c.toNat).toNat = c := by
  rw [UInt8.toNat_ofNat', Nat.mod_eq_of_lt (by omega), Char.ofNat_toNat]

/-- A byte looks like a character of one byte only if it is one. -/
theorem eq_of_mem_utf8EncodeChar {b : UInt8} (hb : b ∈ String.utf8EncodeChar c)
    (h : (Char.ofNat b.toNat).toNat < 128) : c = Char.ofNat b.toNat := by
  refine Utf8.mem_utf8EncodeChar ?_ hb
  have hvalid : b.toNat.isValidChar := .inl (Nat.lt_trans b.toNat_lt (by decide))
  rw [Char.ofNat, dif_pos hvalid] at h
  exact h

/-- No byte of a character has a property that the character lacks, or the other way round. -/
theorem apply_byte (hp : AsciiOnly p) {b : UInt8} (hb : b ∈ String.utf8EncodeChar c) :
    p (Char.ofNat b.toNat) = p c := by
  rw [Bool.eq_iff_iff]
  constructor
  · intro h
    rwa [eq_of_mem_utf8EncodeChar hb (hp _ h)]
  · intro h
    have hc := hp c h
    rw [utf8EncodeChar_of_lt hc, List.mem_singleton] at hb
    rwa [hb, ofNat_toNat_of_lt hc]

theorem exists_utf8EncodeChar (c : Char) : ∃ b bytes, String.utf8EncodeChar c = b :: bytes := by
  have hlength := String.length_utf8EncodeChar c
  cases hbytes : String.utf8EncodeChar c with
  | nil =>
    rw [hbytes] at hlength
    exact absurd hlength.symm (Nat.pos_iff_ne_zero.mp c.utf8Size_pos)
  | cons b bytes => exact ⟨b, bytes, rfl⟩

theorem takeWhile_encode (hp : AsciiOnly p) (s : List Char) :
    ((Utf8.encode s).takeWhile fun b => p (Char.ofNat b.toNat)) = Utf8.encode (s.takeWhile p) := by
  induction s with
  | nil => rfl
  | cons c s ih =>
    rw [encode_cons]
    by_cases hc : p c = true
    · rw [utf8EncodeChar_of_lt (hp c hc), List.singleton_append, List.takeWhile_cons_of_pos, ih,
        List.takeWhile_cons_of_pos hc, encode_cons, utf8EncodeChar_of_lt (hp c hc),
        List.singleton_append]
      rwa [ofNat_toNat_of_lt (hp c hc)]
    · obtain ⟨b, bytes, hbytes⟩ := exists_utf8EncodeChar c
      have hb : p (Char.ofNat b.toNat) = p c := apply_byte hp (hbytes ▸ List.mem_cons_self)
      rw [hbytes, List.cons_append, List.takeWhile_cons_of_neg, List.takeWhile_cons_of_neg hc]
      · rfl
      · rwa [hb]

/-- At the place of a character stands a byte with its properties. -/
theorem exists_byteAt?_size (s : List Char) (c : Char) (t : List Char) :
    ∃ d, byteAt? (s ++ c :: t) (size s) = some d ∧ ∀ p, AsciiOnly p → p d = p c := by
  obtain ⟨b, bytes, hbytes⟩ := exists_utf8EncodeChar c
  refine ⟨Char.ofNat b.toNat, ?_, fun p hp => apply_byte hp (hbytes ▸ List.mem_cons_self)⟩
  rw [byteAt?, Utf8.encode_append, encode_cons, hbytes, size,
    List.getElem?_append_right (Nat.le_refl _), Nat.sub_self]
  rfl

theorem byteAt?_size_nil (s : List Char) : byteAt? s (size s) = none := by
  rw [byteAt?, size, List.getElem?_eq_none (Nat.le_refl _), Option.map_none]

/-- What looks like a character of one byte begins there. -/
theorem exists_of_byteAt? {place : Nat} (h : byteAt? s place = some c) (hc : c.toNat < 128) :
    ∃ before rest, s = before ++ c :: rest ∧ size before = place := by
  induction s generalizing place with
  | nil => cases h
  | cons d s ih =>
    rw [byteAt?, encode_cons, List.getElem?_append] at h
    split at h
    case isTrue hlt =>
      obtain ⟨b, hb, rfl⟩ := Option.map_eq_some_iff.mp h
      obtain rfl := eq_of_mem_utf8EncodeChar (List.mem_of_getElem? hb) hc
      rw [String.length_utf8EncodeChar, utf8Size_of_lt hc, Nat.lt_one_iff] at hlt
      exact ⟨[], s, rfl, hlt.symm⟩
    case isFalse hge =>
      obtain ⟨before, rest, rfl, hsize⟩ := ih h
      rw [String.length_utf8EncodeChar] at hge hsize
      refine ⟨d :: before, rest, rfl, ?_⟩
      rw [size_cons, hsize]
      omega

theorem byteAt?_zero (hc : c.toNat < 128) (s : List Char) : byteAt? (c :: s) 0 = some c := by
  rw [byteAt?, encode_cons, utf8EncodeChar_of_lt hc, List.singleton_append,
    List.getElem?_cons_zero, Option.map_some, ofNat_toNat_of_lt hc]

/-- The second byte is that of the second character if the first one has no more than one. -/
theorem byteAt?_one_eq_some_iff (hc : c.toNat < 128) :
    byteAt? s 1 = some c ↔ ∃ first rest, first.toNat < 128 ∧ s = first :: c :: rest := by
  constructor
  · intro h
    obtain ⟨before, rest, rfl, hsize⟩ := exists_of_byteAt? h hc
    cases before with
    | nil => cases hsize
    | cons first before =>
      have hfirst := first.utf8Size_pos
      have hlength := length_le_size before
      rw [size_cons] at hsize
      obtain rfl : before = [] := List.eq_nil_of_length_eq_zero (by omega)
      have hone : first.utf8Size = 1 := by omega
      have hascii : first.toNat ≤ 127 :=
        UInt32.le_iff_toNat_le.mp (Char.utf8Size_eq_one_iff.mp hone)
      exact ⟨first, rest, by omega, rfl⟩
  · rintro ⟨first, rest, hfirst, rfl⟩
    rw [byteAt?, encode_cons, encode_cons, utf8EncodeChar_of_lt hfirst, utf8EncodeChar_of_lt hc,
      List.singleton_append, List.singleton_append, List.getElem?_cons_succ,
      List.getElem?_cons_zero, Option.map_some, ofNat_toNat_of_lt hc]

theorem exists_byteAt? {place : Nat} (h : place < size s) : ∃ c, byteAt? s place = some c :=
  ⟨_, by rw [byteAt?, List.getElem?_eq_getElem h, Option.map_some]⟩

theorem runEnd_size (hp : AsciiOnly p) (s t : List Char) :
    runEnd p (s ++ t) (size s) = size s + size (t.takeWhile p) := by
  rw [runEnd, Utf8.encode_append, size, List.drop_left, takeWhile_encode hp]
  rfl

/-! ## Places of what is left -/

/-- Where the rest of a text begins. -/
def placeIn (whole rest : List Char) : Nat :=
  size whole - size rest

section

variable {whole rest word : List Char}

theorem placeIn_append (s t : List Char) : placeIn (s ++ t) t = size s := by
  rw [placeIn, size_append, Nat.add_sub_cancel]

theorem placeIn_self (s : List Char) : placeIn s s = 0 :=
  Nat.sub_self _

/-- Behind a word lies what is left after it. -/
theorem placeIn_add (hparts : word ++ rest = t) (h : t <:+ whole) :
    placeIn whole t + size word = placeIn whole rest := by
  subst hparts
  obtain ⟨before, rfl⟩ := h
  rw [placeIn_append, ← List.append_assoc, placeIn_append, size_append]

theorem placeIn_cons (h : c :: rest <:+ whole) (hc : c.toNat < 128) :
    placeIn whole (c :: rest) + 1 = placeIn whole rest := by
  have hadd := @placeIn_add _ whole rest [c] rfl h
  rwa [size_cons, utf8Size_of_lt hc, size_nil] at hadd

theorem size_sub_placeIn (h : rest <:+ whole) : size whole - placeIn whole rest = size rest :=
  Nat.sub_sub_self (size_le_of_sublist h.sublist)

theorem placeIn_le (whole rest : List Char) : placeIn whole rest ≤ size whole :=
  Nat.sub_le _ _

theorem from?_placeIn (h : rest <:+ whole) : from? (placeIn whole rest) whole = some rest := by
  obtain ⟨before, rfl⟩ := h
  rw [placeIn_append, from?_size]

/-- The front of a rest lies between the place of the rest and that of what follows it. -/
theorem slice?_placeIn (hparts : word ++ rest = t) (h : t <:+ whole) :
    slice? (placeIn whole t) (placeIn whole rest) whole = some word := by
  rw [← placeIn_add hparts h]
  subst hparts
  obtain ⟨before, rfl⟩ := h
  rw [placeIn_append, slice?_size]

/-- A piece that can be cut out at the front of a rest is the front of it. -/
theorem exists_of_slice?_placeIn {length : Nat} (h : rest <:+ whole)
    (hslice : slice? (placeIn whole rest) (placeIn whole rest + length) whole = some word) :
    ∃ after, rest = word ++ after ∧ size word = length := by
  rw [slice?, if_pos (Nat.le_add_right _ _), from?_placeIn h, Option.bind_some,
    Nat.add_sub_cancel_left] at hslice
  obtain ⟨⟨front, after⟩, hcut, rfl⟩ := Option.map_eq_some_iff.mp hslice
  exact ⟨after, cut?_eq_some_iff.mp hcut⟩

theorem exists_byteAt?_placeIn (h : c :: rest <:+ whole) :
    ∃ d, byteAt? whole (placeIn whole (c :: rest)) = some d ∧ ∀ p, AsciiOnly p → p d = p c := by
  obtain ⟨before, rfl⟩ := h
  rw [placeIn_append]
  exact exists_byteAt?_size before c rest

theorem byteAt?_placeIn_nil (whole : List Char) : byteAt? whole (placeIn whole []) = none := by
  rw [placeIn, size_nil, Nat.sub_zero, byteAt?_size_nil]

theorem any_byteAt?_placeIn (hp : AsciiOnly p) (h : rest <:+ whole) :
    (byteAt? whole (placeIn whole rest)).any p = rest.head?.any p := by
  cases rest with
  | nil =>
    rw [byteAt?_placeIn_nil]
    rfl
  | cons c rest =>
    obtain ⟨d, hd, hsame⟩ := exists_byteAt?_placeIn h
    rw [hd]
    exact hsame p hp

theorem byteAt?_placeIn_eq_some_iff (hc : c.toNat < 128) (h : rest <:+ whole) :
    byteAt? whole (placeIn whole rest) = some c ↔ rest.head? = some c := by
  have hany (found : Option Char) : found = some c ↔ found.any (fun d => d = c) = true := by
    cases found <;> simp
  rw [hany, hany, any_byteAt?_placeIn (asciiOnly_eq hc) h]

theorem runEnd_placeIn (hp : AsciiOnly p) (h : rest <:+ whole) :
    runEnd p whole (placeIn whole rest) = placeIn whole (rest.dropWhile p) := by
  rw [← placeIn_add List.takeWhile_append_dropWhile h]
  obtain ⟨before, rfl⟩ := h
  rw [placeIn_append, runEnd_size hp]

end

/-! ## Words -/

namespace Checked

/-- The first word and what follows it, cut at the place of the blank after the word. -/
def splitWord (s : List Char) : Option (List Char × List Char) :=
  let s := trimStart s
  match placeOf? isBlank s with
  | none => some (s, [])
  | some place => do
    let word ← upTo? place s
    let rest ← from? place s
    some (word, rest)

theorem splitWord_eq (s : List Char) : splitWord s = some (Text.splitWord s) := by
  rw [splitWord, Text.splitWord, List.span_eq_takeWhile_dropWhile]
  have hsearch := search isBlank (trimStart s)
  generalize placeOf? isBlank (trimStart s) = place at hsearch
  generalize trimStart s = t at hsearch
  cases hsearch with
  | missed hskip hrest => rw [hskip, hrest]
  | found hc hskip hrest => simp [hskip, hrest]

end Checked

end Cpm80.Text
