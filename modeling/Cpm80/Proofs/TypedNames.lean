import Cpm80.Proofs.CarriedNames
import Cpm80.Proofs.ProgramFiles

/-!
# Names as they are typed

What a user types for a file is a base and an extension in letters of either case, perhaps with the
letter of a drive in front. Such a name is that of a file, and it comes back in upper case from the
fields of a control block. The commands and the default block of a program take the same drive from
the prefix and the same name from the rest, each by a code of its own; and a typed name with the
extension of programs is never taken for a built-in command.
-/
namespace Cpm80

namespace Text

/-! ## Words in upper case -/

theorem wordsFrom_upper (done : List (List Char)) (current s : List Char) :
    wordsFrom (done.map upper) (upper current) (upper s) =
      (wordsFrom done current s).map upper := by
  have hempty (t : List Char) : (upper t).isEmpty = t.isEmpty := List.isEmpty_map
  have hdone (done : List (List Char)) (current : List Char) :
      (if (upper current).isEmpty then done.map upper
        else (upper current).reverse :: done.map upper) =
      (if current.isEmpty then done else current.reverse :: done).map upper := by
    rw [hempty, apply_ite (List.map upper), List.map_cons, upper, upper, List.map_reverse]
  induction s generalizing done current with
  | nil =>
    have hnil : upper [] = [] := rfl
    rw [hnil, wordsFrom, wordsFrom, hdone, List.map_reverse]
  | cons c rest ih =>
    have hcons : upper (c :: rest) = c.toUpper :: upper rest := rfl
    rw [hcons, wordsFrom, wordsFrom, isBlank_toUpper]
    split
    case isTrue hblank =>
      rw [hdone]
      exact ih _ []
    case isFalse hletter => exact ih done (c :: current)

theorem words_upper (s : List Char) : words (upper s) = (words s).map upper :=
  wordsFrom_upper [] [] s

/-! ## Two words -/

variable {first second rest : List Char}

theorem wordsFrom_append (hfirst : Unbroken first) (done : List (List Char))
    (current rest : List Char) :
    wordsFrom done current (first ++ rest) = wordsFrom done (first.reverse ++ current) rest := by
  induction first generalizing current with
  | nil => rfl
  | cons c first ih =>
    obtain ⟨hc, hrest⟩ := List.forall_mem_cons.mp hfirst
    rw [List.cons_append, wordsFrom, hc, if_neg Bool.false_ne_true, ih hrest, List.reverse_cons,
      List.append_assoc, List.singleton_append]

theorem words_of_two (hfirst : Unbroken first) (hne : first ≠ []) (hsecond : Unbroken second)
    (hsome : second ≠ []) : words (first ++ ' ' :: second) = [first, second] := by
  have hblank : isBlank ' ' = true := rfl
  have hfirstSome : first.reverse.isEmpty = false := by simpa using hne
  have hsecondSome : second.reverse.isEmpty = false := by simpa using hsome
  have hlast := wordsFrom_append hsecond [first] [] []
  rw [List.append_nil, List.append_nil] at hlast
  rw [words, wordsFrom_append hfirst, List.append_nil, wordsFrom, if_pos hblank, hfirstSome,
    if_neg Bool.false_ne_true, List.reverse_reverse, hlast, wordsFrom, hsecondSome,
    if_neg Bool.false_ne_true, List.reverse_reverse]
  rfl

end Text

namespace FileName

open Text

/-! ## Names as they are typed -/

/-- A character that a typed name can have: printable, and without a meaning of its own in a name,
a pattern, an argument or a path. -/
def isNameChar (c : Char) : Bool :=
  isPlain c && c ≠ '.' && c ≠ ':' && c ≠ '/' && c ≠ '\\'

/-- A base and an extension, which may be missing, that fit the fields of a control block. -/
structure IsTyped (base extension : List Char) : Prop where
  base_ne : base ≠ []
  base_le : base.length ≤ 8
  extension_le : extension.length ≤ 3
  base_chars : ∀ c ∈ base, isNameChar c = true
  extension_chars : ∀ c ∈ extension, isNameChar c = true

instance (base extension : List Char) : Decidable (IsTyped base extension) :=
  decidable_of_iff (base ≠ [] ∧ base.length ≤ 8 ∧ extension.length ≤ 3 ∧
      base.all isNameChar = true ∧ extension.all isNameChar = true)
    ⟨fun ⟨hne, hbase, hextension, hchars, hmore⟩ =>
        ⟨hne, hbase, hextension, List.all_eq_true.mp hchars, List.all_eq_true.mp hmore⟩,
      fun h => ⟨h.base_ne, h.base_le, h.extension_le, List.all_eq_true.mpr h.base_chars,
        List.all_eq_true.mpr h.extension_chars⟩⟩

theorem isNameChar_iff {c : Char} :
    isNameChar c = true ↔ isPlain c = true ∧ c ≠ '.' ∧ isForbidden c = false := by
  have hcontrol : isPlain c = true → isControl c = false := by
    intro hplain
    simp only [isPlain, Bool.and_eq_true, decide_eq_true_eq] at hplain
    rw [Bool.eq_false_iff, Ne]
    simp only [isControl, Bool.or_eq_true, Bool.and_eq_true, decide_eq_true_eq]
    omega
  simp only [isNameChar, isForbidden, Bool.and_eq_true, Bool.or_eq_false_iff, decide_eq_true_eq,
    decide_eq_false_iff_not]
  constructor
  · rintro ⟨⟨⟨⟨hplain, hdot⟩, hcolon⟩, hslash⟩, hbackslash⟩
    exact ⟨hplain, hdot, ⟨⟨hslash, hbackslash⟩, hcolon⟩, hcontrol hplain⟩
  · rintro ⟨hplain, hdot, ⟨⟨hslash, hbackslash⟩, hcolon⟩, -⟩
    exact ⟨⟨⟨⟨hplain, hdot⟩, hcolon⟩, hslash⟩, hbackslash⟩

theorem isNameChar_toUpper (c : Char) : isNameChar c.toUpper = isNameChar c := by
  have hdot : c.toUpper = '.' ↔ c = '.' := toUpper_eq_iff (by decide)
  rw [Bool.eq_iff_iff, isNameChar_iff, isNameChar_iff, isPlain_toUpper, isForbidden_toUpper, Ne,
    hdot]

theorem upper_joined (base extension : List Char) :
    upper (joined base extension) = joined (upper base) (upper extension) := by
  have hempty : (upper extension).isEmpty = extension.isEmpty := List.isEmpty_map
  rw [joined, joined, hempty, apply_ite upper, upper_append]
  rfl

theorem mem_joined {base extension : List Char} {c : Char} (hc : c ∈ joined base extension) :
    c ∈ base ∨ c = '.' ∨ c ∈ extension := by
  rw [joined] at hc
  split at hc
  case isTrue => exact .inl hc
  case isFalse => simpa using hc

namespace IsTyped

variable {base extension : List Char}

theorem upper (h : IsTyped base extension) : IsTyped (upper base) (upper extension) where
  base_ne := upper_ne_nil h.base_ne
  base_le := by
    rw [length_upper]
    exact h.base_le
  extension_le := by
    rw [length_upper]
    exact h.extension_le
  base_chars := by
    rw [Text.upper, List.forall_mem_map]
    simpa only [isNameChar_toUpper] using h.base_chars
  extension_chars := by
    rw [Text.upper, List.forall_mem_map]
    simpa only [isNameChar_toUpper] using h.extension_chars

theorem chars (h : IsTyped base extension) {c : Char} (hc : c ∈ joined base extension) :
    c = '.' ∨ isNameChar c = true := by
  rcases mem_joined hc with hbase | hdot | hextension
  · exact .inr (h.base_chars c hbase)
  · exact .inl hdot
  · exact .inr (h.extension_chars c hextension)

theorem isPlain_of_mem (h : IsTyped base extension) :
    ∀ c ∈ joined base extension, isPlain c = true := by
  intro c hc
  rcases h.chars hc with rfl | hname
  · decide
  · exact (isNameChar_iff.mp hname).1

theorem unbroken (h : IsTyped base extension) : Unbroken (joined base extension) :=
  unbroken_of_isPlain h.isPlain_of_mem

theorem notMem_colon (h : IsTyped base extension) : ':' ∉ joined base extension := by
  intro hmem
  rcases h.chars hmem with hdot | hname
  · cases hdot
  · cases hname

/-- The first character, which is not a dot. -/
theorem exists_cons (h : IsTyped base extension) :
    ∃ c rest, joined base extension = c :: rest ∧ isNameChar c = true := by
  cases base with
  | nil => exact absurd rfl h.base_ne
  | cons c rest =>
    have hc := h.base_chars c List.mem_cons_self
    rw [joined]
    split
    case isTrue => exact ⟨c, rest, rfl, hc⟩
    case isFalse => exact ⟨c, rest ++ '.' :: extension, rfl, hc⟩

/-- A typed name is the name of a file. -/
theorem normalize?_eq (h : IsTyped base extension) :
    normalize? (String.ofList (joined base extension)) =
      some (String.ofList (Text.upper (joined base extension))) := by
  rw [normalize?_of_unbroken h.unbroken, if_neg]
  obtain ⟨c, rest, hjoined, hc⟩ := h.exists_cons
  obtain ⟨-, hdot, -⟩ := isNameChar_iff.mp hc
  rintro (hnil | hone | htwo | hforbidden)
  · rw [hjoined] at hnil
    cases hnil
  · rw [hjoined] at hone
    exact hdot (List.cons.inj hone).1
  · rw [hjoined] at htwo
    exact hdot (List.cons.inj htwo).1
  · obtain ⟨d, hd, hbad⟩ := List.any_eq_true.mp hforbidden
    rcases h.chars hd with rfl | hname
    · cases hbad
    · rw [(isNameChar_iff.mp hname).2.2] at hbad
      cases hbad

theorem isField_of_chars {s : List Char} (h : ∀ c ∈ s, isNameChar c = true)
    (hupper : Text.upper s = s) : IsField s ∧ '*' ∉ s := by
  apply isField_of_plain (fun c hc => (isNameChar_iff.mp (h c hc)).1) _ hupper
  intro hdot
  cases h '.' hdot

/-- The fields of a control block keep a typed name, but for the case of its letters. -/
theorem ofPadded_padded (h : IsTyped base extension) :
    ofPadded (padded (String.ofList (Text.upper (joined base extension)))) =
      String.ofList (Text.upper (joined base extension)) := by
  obtain ⟨hbase, hbaseStar⟩ := isField_of_chars h.upper.base_chars (upper_upper base)
  obtain ⟨hextension, hextensionStar⟩ :=
    isField_of_chars h.upper.extension_chars (upper_upper extension)
  rw [upper_joined, padded_joined hbase hextension, ofPadded_fields hbase hextension,
    shown_of_length_le hbaseStar h.upper.base_le,
    shown_of_length_le hextensionStar h.upper.extension_le]

end IsTyped

end FileName

namespace CommandLine

open Text FileName DiskSystem

/-! ## Prefixes -/

/-- What may stand in front of a name to tell its drive: nothing for the current drive, or the
letter of a drive, in either case, with a colon. -/
inductive Designates (d : DiskSystem) : List Char → Nat → Prop
  | current : Designates d [] d.current
  | letter {c : Char} {index : Nat} (hascii : c.toNat < 128)
      (hnumber : c.toUpper.toNat = 65 + index) (hthere : index < d.drives.length) :
      Designates d [c, ':'] index

variable {d : DiskSystem} {start name : List Char} {index : Nat}

/-- In upper case an ASCII character is one still. -/
theorem toNat_toUpper_lt {c : Char} (hascii : c.toNat < 128) : c.toUpper.toNat < 128 := by
  rw [toNat_toUpper]
  split <;> omega

/-- A name with such a prefix is one word. -/
theorem Designates.unbroken (h : Designates d start index) (hname : Unbroken name) :
    Unbroken (start ++ name) := by
  cases h with
  | current => exact hname
  | @letter c index hascii hnumber hthere =>
    have hsmall := toNat_toUpper_lt hascii
    have hc : isBlank c = false := by
      rw [← isBlank_toUpper, Bool.eq_false_iff, Ne]
      simp only [isBlank, hnumber, Bool.or_eq_true, Bool.and_eq_true, decide_eq_true_eq]
      omega
    exact List.forall_mem_cons.mpr ⟨hc, List.forall_mem_cons.mpr ⟨rfl, hname⟩⟩

theorem Designates.upper_start (h : Designates d start index) :
    Designates d (upper start) index := by
  cases h with
  | current => exact .current
  | @letter c index hascii hnumber hthere =>
    exact .letter (toNat_toUpper_lt hascii) (by rwa [toUpper_toUpper]) hthere

/-- The commands take the drive from the prefix and the rest for the name. -/
theorem Designates.fileArgument?_append (h : Designates d start index) (hname : Unbroken name)
    (hcolon : ':' ∉ name) :
    fileArgument? d (start ++ name) = some (index, String.ofList (upper name)) := by
  have hunbroken := h.unbroken hname
  cases h with
  | current => exact fileArgument?_of_unbroken hname hcolon d
  | @letter c index hascii hnumber hthere =>
    have hupper : upper ([c, ':'] ++ name) = c.toUpper :: ':' :: upper name := rfl
    have hdrive : c.toUpper.toNat - 65 = index := by omega
    simp only [fileArgument?, trim_of_tight hunbroken.tight, hupper, hdrive,
      if_pos (toNat_toUpper_lt hascii)]
    exact if_pos ⟨by omega, hthere⟩

/-- The block of a program takes the drive from the prefix, if that is a letter of the alphabet, and
the rest for the name. -/
theorem Designates.firstArgument_eq {tail : List Char} (h : Designates d start index)
    (hletter : ∀ c ∈ start.head?, c.isAlpha) (hcolon : ':' ∉ name)
    (hfirst : (words tail).head? = some (start ++ name)) :
    ∃ byte, firstArgument (upper tail) = (byte, upper name) ∧ d.Selects byte index := by
  have hhead : (words (upper tail)).headD [] = upper (start ++ name) := by
    rw [words_upper, List.headD_eq_head?_getD, List.head?_map, hfirst]
    rfl
  cases h with
  | current =>
    refine ⟨0, ?_, .inl ⟨rfl, rfl⟩⟩
    have hupper : ':' ∉ upper name := by
      rwa [mem_upper_iff (by decide)]
    simp only [firstArgument, hhead, List.nil_append]
    split
    case h_1 letter rest heq =>
      rw [heq] at hupper
      simp at hupper
    case h_2 hother => rfl
  | @letter c index hascii hnumber hthere =>
    have hupper : upper ([c, ':'] ++ name) = c.toUpper :: ':' :: upper name := rfl
    have hc : c.isAlpha := hletter c rfl
    have hbounds : 65 ≤ c.toUpper.toNat ∧ c.toUpper.toNat ≤ 90 := by
      rw [isAlpha_iff] at hc
      rw [toNat_toUpper]
      split <;> omega
    have hrange : 'A' ≤ c.toUpper ∧ c.toUpper ≤ 'Z' := hbounds
    refine ⟨UInt8.ofNat (c.toUpper.toNat - 64), ?_, .inr ?_⟩
    · simp only [firstArgument, hhead, hupper, if_pos hrange]
    · rw [UInt8.toNat_ofNat']
      omega

/-! ## Names of programs -/

/-- No built-in command has a dot in it. -/
theorem ofWord_of_dot {word : List Char} (hdot : '.' ∈ word) :
    Command.ofWord word = .program word := by
  unfold Command.ofWord
  split
  case h_19 =>
    split
    case h_1 =>
      rcases List.mem_cons.mp hdot with rfl | hdot
      · exact if_neg (by decide)
      · exact absurd hdot (by decide)
    case h_2 => rfl
  all_goals
    rename_i hword
    have hchars := congrArg String.toList hword
    rw [String.toList_ofList] at hchars
    rw [hchars] at hdot
    exact absurd hdot (by decide)

section

variable {base extension : List Char} (hname : IsTyped base extension)
  (hextension : upper extension = ['C', 'O', 'M'])

include hextension in
/-- A typed name with the extension of programs, in upper case. -/
theorem upper_joined_of_com : upper (joined base extension) = upper base ++ programSuffix := by
  rw [upper_joined, hextension]
  rfl

include hname in
theorem append_typed_ne_nil (start : List Char) : start ++ joined base extension ≠ [] := by
  obtain ⟨c, rest, hjoined, -⟩ := hname.exists_cons
  rw [hjoined]
  exact List.append_ne_nil_of_right_ne_nil start (List.cons_ne_nil c rest)

include hname hextension

/-- Such a name can be given to a new file. -/
theorem isNewName_of_com :
    isNewName (String.ofList (upper (joined base extension))) = true := by
  have hdot : '.' ∉ upper base := fun hmem => by
    cases hname.upper.base_chars '.' hmem
  have hplain : ∀ c ∈ upper base, isPlain c = true :=
    fun c hc => (isNameChar_iff.mp (hname.upper.base_chars c hc)).1
  have hshort : isShort (String.ofList (upper (joined base extension))) = true := by
    rw [upper_joined_of_com hextension]
    exact (isShort_append_dot hdot).mpr ⟨hname.upper.base_ne, hname.upper.base_le, by decide,
      by decide, hplain, List.all_eq_true.mp (by decide)⟩
  have hnormal := isNormal_of_normalize? hname.normalize?_eq
  rw [isNewName, hnormal, hshort]
  rfl

/-- It names its own program file. -/
theorem programFileName?_of_com :
    programFileName? (String.ofList (upper (joined base extension))) =
      some (String.ofList (upper (joined base extension))) := by
  have hnormal := isNormal_of_normalize? hname.normalize?_eq
  have hfull : programSuffix.isSuffixOf (upper (joined base extension)) = true := by
    rw [upper_joined_of_com hextension, List.isSuffixOf_iff_suffix]
    exact List.suffix_append _ _
  rw [IsNormal] at hnormal
  simp [programFileName?, hfull, hnormal]

/-- With or without a prefix, it designates the file of its name. -/
theorem findProgram?_of_com (hstart : Designates d start index) :
    findProgram? d (upper (start ++ joined base extension)) =
      d.file? index (String.ofList (upper (joined base extension))) := by
  have hcolon : ':' ∉ upper (joined base extension) := by
    rw [mem_upper_iff (by decide)]
    exact hname.notMem_colon
  have hargument := hstart.upper_start.fileArgument?_append hname.unbroken.upper hcolon
  rw [← upper_append, upper_upper] at hargument
  simp only [findProgram?, hargument, programFileName?_of_com hname hextension,
    Option.bind_eq_bind, Option.bind_some]

end

end CommandLine

end Cpm80
