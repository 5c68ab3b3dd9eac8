import Cpm80.FileName
import Cpm80.Proofs.TextBytes
import Cpm80.Proofs.Words

/-!
# Names in their padded form

The padded form of an ASCII text is the text of its two fields. A field that is cut, filled by an
asterisk and padded is made the same again from what it shows, so the name that a control block
carries has the padded form that was put into the block. This holds for texts with at most one
dot: of two dots the first would be shown in the base and then split off.
-/
namespace Cpm80

namespace Text

/-- Every character has a single byte. -/
def Ascii (s : List Char) : Prop :=
  ∀ c ∈ s, c.toNat < 0x80

instance (s : List Char) : Decidable (Ascii s) :=
  List.decidableBAll (fun c : Char => c.toNat < 0x80) s

/-- The ASCII characters that leave a mark on paper. -/
def Printable (s : List Char) : Prop :=
  ∀ c ∈ s, 0x21 ≤ c.toNat ∧ c.toNat ≤ 0x7E

instance (s : List Char) : Decidable (Printable s) :=
  List.decidableBAll (fun c : Char => 0x21 ≤ c.toNat ∧ c.toNat ≤ 0x7E) s

variable {s : List Char}

theorem Ascii.upper (h : Ascii s) : Ascii (upper s) := by
  intro c hc
  obtain ⟨d, hd, rfl⟩ := List.mem_map.mp hc
  have hbound := h d hd
  rw [toNat_toUpper]
  split <;> omega

theorem toUpper_toUpper (c : Char) : c.toUpper.toUpper = c.toUpper :=
  (List.cons.inj (upper_upper [c])).1

theorem count_upper {d : Char} (hd : ¬d.isAlpha) (s : List Char) :
    (upper s).count d = s.count d := by
  rw [List.count_eq_countP, upper, List.countP_map, List.count_eq_countP]
  congr 1
  funext c
  rw [Function.comp_apply, Bool.eq_iff_iff, beq_iff_eq, beq_iff_eq, toUpper_eq_iff hd]

theorem trim_subset (s : List Char) : trim s ⊆ s := by
  intro c hc
  have hend : c ∈ (trimStart s).reverse :=
    (List.dropWhile_suffix isBlank).subset (List.mem_reverse.mp hc)
  exact (List.dropWhile_suffix isBlank).subset (List.mem_reverse.mp hend)

theorem Printable.unbroken (h : Printable s) : Unbroken s := by
  intro c hc
  have := h c hc
  rw [Bool.eq_false_iff, Ne]
  simp only [isBlank, Bool.or_eq_true, Bool.and_eq_true, decide_eq_true_eq]
  omega

/-- A character that is no blank stays in front of what is trimmed. -/
theorem trimEnd_cons {c : Char} (hc : isBlank c = false) (s : List Char) :
    trimEnd (c :: s) = c :: trimEnd s := by
  rw [trimEnd, trimEnd, List.reverse_cons, List.dropWhile_append]
  split
  case isTrue hblank =>
    rw [List.isEmpty_iff.mp hblank, List.dropWhile_cons_of_neg (by simp [hc])]
    rfl
  case isFalse hsome => rw [List.reverse_append, List.reverse_singleton, List.singleton_append]

theorem trimEnd_of_unbroken (h : Unbroken s) : trimEnd s = s := by
  induction s with
  | nil => rfl
  | cons c rest ih =>
    obtain ⟨hc, hrest⟩ := List.forall_mem_cons.mp h
    rw [trimEnd_cons hc, ih hrest]

end Text

namespace Utf8

open Text

/-- The one byte of an ASCII character. -/
def byteOf (c : Char) : UInt8 :=
  UInt8.ofNat c.toNat

theorem encode_of_ascii {s : List Char} (h : Ascii s) : encode s = s.map byteOf := by
  induction s with
  | nil => rfl
  | cons c rest ih =>
    obtain ⟨hc, hrest⟩ := List.forall_mem_cons.mp h
    have hform : String.utf8EncodeChar c = [byteOf c] := by
      have hnumber : c.val.toNat ≤ 0x7F := Nat.le_of_lt_succ hc
      rw [String.utf8EncodeChar, if_pos hnumber]
      rfl
    rw [encode, List.flatMap_cons, hform, ← encode, ih hrest]
    rfl

end Utf8

namespace FileName

open Text Utf8

/-! ## Fields -/

/-- A field as a text: padded with spaces or cut, an asterisk filling the rest with question
marks. -/
def fillText : (width : Nat) → List Char → List Char
  | 0, _ => []
  | width + 1, [] => List.replicate (width + 1) ' '
  | width + 1, c :: rest =>
    if c = '*' then List.replicate (width + 1) '?' else c :: fillText width rest

variable {width : Nat} {s : List Char}

theorem mem_fillText {c : Char} (hc : c ∈ fillText width s) : c ∈ s ∨ c = ' ' ∨ c = '?' := by
  induction width generalizing s with
  | zero => cases hc
  | succ width ih =>
    cases s with
    | nil => exact .inr (.inl (List.eq_of_mem_replicate hc))
    | cons first rest =>
      rw [fillText] at hc
      split at hc
      case isTrue hstar => exact .inr (.inr (List.eq_of_mem_replicate hc))
      case isFalse hother =>
        rcases List.mem_cons.mp hc with rfl | hc
        · exact .inl List.mem_cons_self
        · exact (ih hc).imp_left (List.mem_cons_of_mem first)

theorem ascii_fillText (h : Ascii s) : Ascii (fillText width s) := by
  intro c hc
  rcases mem_fillText hc with hin | rfl | rfl
  · exact h c hin
  · decide
  · decide

theorem byteOf_eq_star_iff {c : Char} (hc : c.toNat < 0x80) : byteOf c = 0x2A ↔ c = '*' := by
  rw [byteOf, ← UInt8.toNat_inj, ← Char.toNat_inj, UInt8.toNat_ofNat']
  change c.toNat % 256 = 42 ↔ c.toNat = 42
  omega

theorem fillField_encode (h : Ascii s) :
    fillField width (encode s) = encode (fillText width s) := by
  rw [encode_of_ascii h, encode_of_ascii (ascii_fillText h)]
  induction width generalizing s with
  | zero => rfl
  | succ width ih =>
    cases s with
    | nil => rw [List.map_nil, fillField, fillText, List.map_replicate]; rfl
    | cons c rest =>
      obtain ⟨hc, hrest⟩ := List.forall_mem_cons.mp h
      rw [List.map_cons, fillField, fillText, ih hrest]
      simp only [byteOf_eq_star_iff hc, apply_ite (List.map byteOf), List.map_replicate,
        List.map_cons]
      rfl

theorem ofNat_byteOf {c : Char} (hc : c.toNat < 0x80) :
    Char.ofNat (byteOf c &&& 0x7F).toNat = c := by
  have hbits : (byteOf c &&& 0x7F).toNat = c.toNat := by
    rw [UInt8.toNat_and, byteOf, UInt8.toNat_ofNat']
    change c.toNat % 256 &&& 2 ^ 7 - 1 = c.toNat
    rw [Nat.and_two_pow_sub_one_eq_mod]
    omega
  rw [hbits, Char.ofNat_toNat]

/-- What a field shows of a text. -/
def shown : (width : Nat) → List Char → List Char
  | 0, _ => []
  | _ + 1, [] => []
  | width + 1, c :: rest =>
    if c = '*' then List.replicate (width + 1) '?' else c :: shown width rest

theorem mem_shown {c : Char} (hc : c ∈ shown width s) : c ∈ s ∨ c = '?' := by
  induction width generalizing s with
  | zero => cases hc
  | succ width ih =>
    cases s with
    | nil => cases hc
    | cons first rest =>
      rw [shown] at hc
      split at hc
      case isTrue hstar => exact .inr (List.eq_of_mem_replicate hc)
      case isFalse hother =>
        rcases List.mem_cons.mp hc with rfl | hc
        · exact .inl List.mem_cons_self
        · exact (ih hc).imp_left (List.mem_cons_of_mem first)

theorem trimEnd_fillText (h : Unbroken s) : trimEnd (fillText width s) = shown width s := by
  induction width generalizing s with
  | zero => rfl
  | succ width ih =>
    cases s with
    | nil =>
      rw [fillText, trimEnd, List.reverse_replicate, List.dropWhile_replicate]
      rfl
    | cons c rest =>
      obtain ⟨hc, hrest⟩ := List.forall_mem_cons.mp h
      rw [fillText, shown]
      split
      case isTrue hstar =>
        apply trimEnd_of_unbroken
        intro mark hmark
        rw [List.eq_of_mem_replicate hmark]
        rfl
      case isFalse hother => rw [trimEnd_cons hc, ih hrest]

theorem fieldText_fillField (hascii : Ascii s) (h : Unbroken s) :
    fieldText (fillField width (encode s)) = shown width s := by
  have htext : Ascii (fillText width s) := ascii_fillText hascii
  rw [fieldText, fillField_encode hascii, encode_of_ascii htext, List.map_map,
    ← trimEnd_fillText h]
  congr 1
  refine (List.map_congr_left fun c hc => ?_).trans (List.map_id _)
  exact ofNat_byteOf (htext c hc)

theorem fillText_replicate (width : Nat) :
    fillText width (List.replicate width '?') = List.replicate width '?' := by
  induction width with
  | zero => rfl
  | succ width ih =>
    rw [List.replicate_succ, fillText, if_neg (by decide), ih]

/-- A field is made again from what it shows. -/
theorem fillText_shown (width : Nat) (s : List Char) :
    fillText width (shown width s) = fillText width s := by
  induction width generalizing s with
  | zero => rfl
  | succ width ih =>
    cases s with
    | nil => rfl
    | cons c rest =>
      by_cases hstar : c = '*'
      · rw [shown, fillText, if_pos hstar, if_pos hstar, fillText_replicate]
      · rw [shown, if_neg hstar, fillText, fillText, if_neg hstar, if_neg hstar, ih]

/-! ## Base and extension -/

variable {base extension : List Char}

theorem splitAtLastDot_of_notMem (h : '.' ∉ s) : splitAtLastDot s = (s, []) := by
  have hall : s.reverse.dropWhile (· ≠ '.') = [] := by
    rw [List.dropWhile_eq_nil_iff]
    intro c hc
    rw [decide_eq_true_eq]
    rintro rfl
    exact h (List.mem_reverse.mp hc)
  rw [splitAtLastDot, hall]

theorem splitAtLastDot_append (h : '.' ∉ extension) :
    splitAtLastDot (base ++ '.' :: extension) = (base, extension) := by
  have hpos : ∀ c ∈ extension.reverse, decide (c ≠ '.') = true := by
    intro c hc
    rw [decide_eq_true_eq]
    rintro rfl
    exact h (List.mem_reverse.mp hc)
  have hreverse : (base ++ '.' :: extension).reverse =
      extension.reverse ++ '.' :: base.reverse := by
    rw [List.reverse_append, List.reverse_cons, List.append_assoc, List.singleton_append]
  rw [splitAtLastDot, hreverse, List.dropWhile_append_of_pos hpos,
    List.takeWhile_append_of_pos hpos, List.dropWhile_cons_of_neg (by simp),
    List.takeWhile_cons_of_neg (by simp), List.append_nil, List.reverse_reverse]
  exact congrArg (·, extension) base.reverse_reverse

/-- A text is all base, or a dot parts it from an extension without dots. -/
theorem splitAtLastDot_cases (s : List Char) :
    ('.' ∉ s ∧ splitAtLastDot s = (s, [])) ∨
      ∃ base extension, s = base ++ '.' :: extension ∧ '.' ∉ extension ∧
        splitAtLastDot s = (base, extension) := by
  by_cases hdot : '.' ∈ s
  case neg => exact .inl ⟨hdot, splitAtLastDot_of_notMem hdot⟩
  case pos =>
    obtain ⟨back, front, heq, hback⟩ := List.eq_append_cons_of_mem (List.mem_reverse.mpr hdot)
    have hparts : s = front.reverse ++ '.' :: back.reverse := by
      rw [← List.reverse_reverse s, heq, List.reverse_append, List.reverse_cons, List.append_assoc,
        List.singleton_append]
    have hextension : '.' ∉ back.reverse := fun hmem => hback (List.mem_reverse.mp hmem)
    refine .inr ⟨front.reverse, back.reverse, hparts, hextension, ?_⟩
    rw [hparts, splitAtLastDot_append hextension]

/-- The padded form of an ASCII name is a text of eight characters and one of three. -/
theorem exists_texts_padded {name : String} (h : Ascii name.toList) :
    ∃ base extension, padded name = encode base ++ encode extension ∧
      (encode base).length = 8 := by
  have hupper : Ascii (upper (trim name.toList)) :=
    Ascii.upper fun c hc => h c (trim_subset name.toList hc)
  obtain ⟨base, extension, hsplit, hbase, hextension⟩ : ∃ base extension,
      splitAtLastDot (upper (trim name.toList)) = (base, extension) ∧ Ascii base ∧
        Ascii extension := by
    rcases splitAtLastDot_cases (upper (trim name.toList)) with
      ⟨-, hsplit⟩ | ⟨base, extension, heq, -, hsplit⟩
    · exact ⟨_, _, hsplit, hupper, by simp [Ascii]⟩
    · rw [heq, Ascii, List.forall_mem_append, List.forall_mem_cons] at hupper
      exact ⟨_, _, hsplit, hupper.1, hupper.2.2⟩
  refine ⟨fillText 8 base, fillText 3 extension, ?_, ?_⟩
  · rw [padded, hsplit, ← fillField_encode hbase, ← fillField_encode hextension]
  · rw [← fillField_encode hbase, length_fillField]

/-- What the base and the extension of a padded name are written in. -/
def IsFieldChar (c : Char) : Prop :=
  0x21 ≤ c.toNat ∧ c.toNat ≤ 0x7E ∧ c ≠ '.' ∧ c.toUpper = c

def IsField (s : List Char) : Prop :=
  ∀ c ∈ s, IsFieldChar c

namespace IsField

theorem ascii (h : IsField s) : Ascii s :=
  fun c hc => Nat.lt_succ_of_le (Nat.le_succ_of_le (h c hc).2.1)

theorem unbroken (h : IsField s) : Unbroken s :=
  Printable.unbroken fun c hc => ⟨(h c hc).1, (h c hc).2.1⟩

theorem undotted (h : IsField s) : '.' ∉ s :=
  fun hmem => (h '.' hmem).2.2.1 rfl

theorem upper (h : IsField s) : Text.upper s = s :=
  (List.map_congr_left fun c hc => (h c hc).2.2.2).trans (List.map_id s)

theorem shown (h : IsField s) : IsField (FileName.shown width s) := by
  intro c hc
  rcases mem_shown hc with hin | rfl
  · exact h c hin
  · exact ⟨by decide, by decide, by decide, by decide⟩

end IsField

/-- A base with its extension, if there is one. -/
def joined (base extension : List Char) : List Char :=
  if extension.isEmpty then base else base ++ '.' :: extension

theorem padded_of_split {parts : List Char × List Char} (h : Unbroken s)
    (hsplit : splitAtLastDot (upper s) = parts) :
    padded (String.ofList s) = fillField 8 (encode parts.1) ++ fillField 3 (encode parts.2) := by
  rw [padded, String.toList_ofList, trim_of_tight h.tight, hsplit]

theorem padded_joined (hbase : IsField base) (hextension : IsField extension) :
    padded (String.ofList (joined base extension)) =
      fillField 8 (encode base) ++ fillField 3 (encode extension) := by
  cases hempty : extension with
  | nil =>
    have hsplit : splitAtLastDot (upper base) = (base, []) := by
      rw [hbase.upper, splitAtLastDot_of_notMem hbase.undotted]
    exact padded_of_split hbase.unbroken hsplit
  | cons c rest =>
    rw [← hempty]
    have hunbroken : Unbroken (base ++ '.' :: extension) :=
      hbase.unbroken.append (List.forall_mem_cons.mpr ⟨rfl, hextension.unbroken⟩)
    have hsplit : splitAtLastDot (upper (base ++ '.' :: extension)) = (base, extension) := by
      have hdotted : upper ('.' :: extension) = '.' :: upper extension := rfl
      rw [upper_append, hdotted, hbase.upper, hextension.upper,
        splitAtLastDot_append hextension.undotted]
    have hjoined : joined base extension = base ++ '.' :: extension := by
      rw [joined, hempty, List.isEmpty_cons, if_neg Bool.false_ne_true]
    rw [hjoined, padded_of_split hunbroken hsplit]

/-- The name that two fields carry. -/
theorem ofPadded_fields (hbase : IsField base) (hextension : IsField extension) :
    ofPadded (fillField 8 (encode base) ++ fillField 3 (encode extension)) =
      String.ofList (joined (shown 8 base) (shown 3 extension)) := by
  rw [ofPadded, List.take_left' (length_fillField _ _), List.drop_left' (length_fillField _ _),
    List.take_of_length_le (Nat.le_of_eq (length_fillField _ _)),
    fieldText_fillField hbase.ascii hbase.unbroken,
    fieldText_fillField hextension.ascii hextension.unbroken, joined]

/-- A word of printable characters with at most one dot is a base and an extension. -/
theorem exists_fields (hprintable : Printable s) (hdots : s.count '.' ≤ 1) :
    ∃ base extension, IsField base ∧ IsField extension ∧
      padded (String.ofList s) = fillField 8 (encode base) ++ fillField 3 (encode extension) := by
  have hunbroken := hprintable.unbroken
  have hchars : ∀ c ∈ upper s, c ≠ '.' → IsFieldChar c := by
    intro c hc hdot
    obtain ⟨d, hd, rfl⟩ := List.mem_map.mp hc
    have := hprintable d hd
    have hbounds : 0x21 ≤ d.toUpper.toNat ∧ d.toUpper.toNat ≤ 0x7E := by
      rw [toNat_toUpper]
      split <;> omega
    exact ⟨hbounds.1, hbounds.2, hdot, toUpper_toUpper d⟩
  have hone : (upper s).count '.' ≤ 1 := by
    rwa [count_upper (by decide)]
  rcases splitAtLastDot_cases (upper s) with ⟨hdot, hsplit⟩ | ⟨base, extension, heq, hdot, hsplit⟩
  · refine ⟨upper s, [], ?_, by simp [IsField], padded_of_split hunbroken hsplit⟩
    exact fun c hc => hchars c hc fun h => hdot (h ▸ hc)
  · rw [heq] at hchars hone
    rw [List.forall_mem_append, List.forall_mem_cons] at hchars
    rw [List.count_append, List.count_cons_self] at hone
    -- the only dot is the one that parts the two
    have hfront : '.' ∉ base := List.count_eq_zero.mp (by omega)
    refine ⟨base, extension, ?_, ?_, padded_of_split hunbroken hsplit⟩
    · exact fun c hc => hchars.1 c hc fun h => hfront (h ▸ hc)
    · exact fun c hc => hchars.2.2 c hc fun h => hdot (h ▸ hc)

/-- The name that a control block carries has the padded form that was put into it. -/
theorem padded_ofPadded (hprintable : Printable s) (hdots : s.count '.' ≤ 1) :
    padded (ofPadded (padded (String.ofList s))) = padded (String.ofList s) := by
  obtain ⟨base, extension, hbase, hextension, hpadded⟩ := exists_fields hprintable hdots
  rw [hpadded, ofPadded_fields hbase hextension, padded_joined hbase.shown hextension.shown,
    fillField_encode hbase.ascii, fillField_encode hextension.ascii,
    fillField_encode hbase.shown.ascii, fillField_encode hextension.shown.ascii,
    fillText_shown, fillText_shown]

end FileName

end Cpm80
