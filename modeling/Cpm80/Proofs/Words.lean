import Cpm80.Text.Blank
import Mathlib.Data.List.TakeDrop
import Mathlib.Data.List.TakeWhile

/-!
# Words and letter case

Trimming leaves a text alone that has no blank at its ends, and a word in front of a blank is
what the cut into words takes off. Turning letters into upper case changes no character that is
not a letter, and makes none into one: blanks and marks stay where they are.
-/
namespace Cpm80.Text

/-- Without a blank at either end. -/
def Tight (s : List Char) : Prop :=
  (∀ c ∈ s.head?, isBlank c = false) ∧ ∀ c ∈ s.getLast?, isBlank c = false

/-- Without a blank anywhere. -/
def Unbroken (s : List Char) : Prop :=
  ∀ c ∈ s, isBlank c = false

instance (s : List Char) : Decidable (Unbroken s) :=
  List.decidableBAll (fun c => isBlank c = false) s

variable {s word rest : List Char}

theorem Unbroken.tight (h : Unbroken s) : Tight s :=
  ⟨fun c hc => h c (List.mem_of_mem_head? hc), fun c hc => h c (List.mem_of_mem_getLast? hc)⟩

theorem Unbroken.append (hword : Unbroken word) (hrest : Unbroken rest) :
    Unbroken (word ++ rest) :=
  List.forall_mem_append.mpr ⟨hword, hrest⟩

theorem trimStart_of_head? (h : ∀ c ∈ s.head?, isBlank c = false) : trimStart s = s := by
  cases s with
  | nil => rfl
  | cons c s =>
    have hc : isBlank c = false := h c rfl
    rw [trimStart, List.dropWhile_cons_of_neg (by simp [hc])]

theorem trimStart_cons_of_blank {c : Char} (hc : isBlank c = true) :
    trimStart (c :: s) = trimStart s := by
  rw [trimStart, List.dropWhile_cons_of_pos hc, trimStart]

theorem trim_of_tight (h : Tight s) : trim s = s := by
  have hreversed : ∀ c ∈ s.reverse.head?, isBlank c = false := by
    rw [List.head?_reverse]
    exact h.2
  have hend := trimStart_of_head? hreversed
  rw [trimStart] at hend
  rw [trim, trimStart_of_head? h.1, trimEnd, hend, List.reverse_reverse]

/-- A word in front of a blank, or of the end, is the first word. -/
theorem splitWord_append (hword : Unbroken word) (hne : word ≠ [])
    (hrest : ∀ c ∈ rest.head?, isBlank c = true) :
    splitWord (word ++ rest) = (word, rest) := by
  have hstart : ∀ c ∈ (word ++ rest).head?, isBlank c = false := by
    cases word with
    | nil => exact absurd rfl hne
    | cons first word =>
      intro c hc
      have hfirst : c ∈ (first :: word).head? := hc
      exact hword c (List.mem_of_mem_head? hfirst)
  have hpos : ∀ c ∈ word, (!isBlank c) = true := by
    intro c hc
    rw [hword c hc, Bool.not_false]
  have hstop : rest.takeWhile (fun c => !isBlank c) = [] ∧
      rest.dropWhile (fun c => !isBlank c) = rest := by
    cases rest with
    | nil => exact ⟨rfl, rfl⟩
    | cons c rest =>
      have hc : isBlank c = true := hrest c rfl
      constructor
      · rw [List.takeWhile_cons_of_neg (by simp [hc])]
      · rw [List.dropWhile_cons_of_neg (by simp [hc])]
  rw [splitWord, trimStart_of_head? hstart, List.span_eq_takeWhile_dropWhile,
    List.takeWhile_append_of_pos hpos, List.dropWhile_append_of_pos hpos, hstop.1, hstop.2,
    List.append_nil]

theorem splitWord_of_unbroken (hword : Unbroken word) (hne : word ≠ []) :
    splitWord word = (word, []) := by
  have h : splitWord (word ++ []) = (word, []) := splitWord_append hword hne (by simp)
  rwa [List.append_nil] at h

/-- A word and a text behind it with a space between them. -/
theorem tight_words (hword : Unbroken word) (hne : word ≠ []) (hrest : Tight rest)
    (hsome : rest ≠ []) : Tight (word ++ ' ' :: rest) := by
  constructor
  · cases word with
    | nil => exact absurd rfl hne
    | cons first word => exact hword.tight.1
  · rw [List.getLast?_append, List.getLast?_cons_of_ne_nil hsome,
      List.getLast?_eq_some_getLast hsome, Option.some_or, ← List.getLast?_eq_some_getLast hsome]
    exact hrest.2

theorem trim_space_cons (hrest : Tight rest) : trim (' ' :: rest) = rest := by
  rw [trim, trimStart_cons_of_blank rfl]
  exact trim_of_tight hrest

theorem takeWhile_ne_of_notMem {mark : Char} (h : mark ∉ s) :
    s.takeWhile (· ≠ mark) = s := by
  rw [List.takeWhile_eq_self_iff]
  intro c hc
  rw [decide_eq_true_eq]
  rintro rfl
  exact h hc

/-! ## Letter case -/

theorem toNat_toUpper (c : Char) :
    c.toUpper.toNat = if 97 ≤ c.toNat ∧ c.toNat ≤ 122 then c.toNat - 32 else c.toNat := by
  by_cases h : 97 ≤ c.toNat ∧ c.toNat ≤ 122
  · have hlower : 'a'.val ≤ c.val ∧ c.val ≤ 'z'.val := h
    have hsum : (c.val + ('A'.val - 'a'.val)).toNat = c.toNat - 32 := by
      rw [UInt32.toNat_add]
      change (c.toNat + 4294967264) % 4294967296 = c.toNat - 32
      omega
    rw [if_pos h]
    exact (congrArg Char.toNat (dif_pos hlower)).trans hsum
  · have hother : ¬('a'.val ≤ c.val ∧ c.val ≤ 'z'.val) := h
    rw [if_neg h]
    exact congrArg Char.toNat (dif_neg hother)

theorem isBlank_toUpper (c : Char) : isBlank c.toUpper = isBlank c := by
  rw [Bool.eq_iff_iff]
  simp only [isBlank, toNat_toUpper, Bool.or_eq_true, Bool.and_eq_true, decide_eq_true_eq]
  split <;> omega

theorem isAlpha_iff (c : Char) :
    c.isAlpha ↔ (65 ≤ c.toNat ∧ c.toNat ≤ 90) ∨ (97 ≤ c.toNat ∧ c.toNat ≤ 122) := by
  have hupper : c.isUpper ↔ 65 ≤ c.toNat ∧ c.toNat ≤ 90 :=
    decide_eq_true_iff
  have hlower : c.isLower ↔ 97 ≤ c.toNat ∧ c.toNat ≤ 122 :=
    (Bool.and_eq_true_iff (x := decide _)).trans
      (and_congr decide_eq_true_iff decide_eq_true_iff)
  rw [← hupper, ← hlower]
  exact Bool.or_eq_true_iff

/-- A character that is no letter is the upper-case form of itself only. -/
theorem toUpper_eq_iff {c d : Char} (hd : ¬d.isAlpha) : c.toUpper = d ↔ c = d := by
  rw [isAlpha_iff] at hd
  rw [← Char.toNat_inj, ← Char.toNat_inj, toNat_toUpper]
  split <;> omega

theorem upper_upper (s : List Char) : upper (upper s) = upper s := by
  rw [upper, upper, List.map_map]
  apply List.map_congr_left
  intro c hc
  apply Char.toNat_inj.mp
  rw [Function.comp_apply, toNat_toUpper, toNat_toUpper]
  grind

theorem upper_append (s t : List Char) : upper (s ++ t) = upper s ++ upper t :=
  List.map_append

theorem upper_ne_nil (h : s ≠ []) : upper s ≠ [] := by
  rw [upper, Ne, List.map_eq_nil_iff]
  exact h

theorem Unbroken.upper (h : Unbroken s) : Unbroken (upper s) := by
  intro c hc
  obtain ⟨d, hd, rfl⟩ := List.mem_map.mp hc
  rw [isBlank_toUpper]
  exact h d hd

theorem mem_upper_iff {d : Char} (hd : ¬d.isAlpha) : d ∈ upper s ↔ d ∈ s := by
  simp only [Text.upper, List.mem_map, toUpper_eq_iff hd, exists_eq_right]

/-! ## Capitals and digits -/

/-- A digit or an upper-case letter. -/
def IsCapital (c : Char) : Prop :=
  (48 ≤ c.toNat ∧ c.toNat ≤ 57) ∨ (65 ≤ c.toNat ∧ c.toNat ≤ 90)

instance : DecidablePred IsCapital := fun _ => inferInstanceAs (Decidable (_ ∨ _))

def Capitals (s : List Char) : Prop :=
  ∀ c ∈ s, IsCapital c

instance (s : List Char) : Decidable (Capitals s) :=
  List.decidableBAll IsCapital s

/-- No mark is a capital. -/
theorem IsCapital.ne {c mark : Char} (hc : IsCapital c) (hmark : ¬IsCapital mark) : c ≠ mark := by
  rintro rfl
  exact hmark hc

theorem IsCapital.isQuote {c : Char} (hc : IsCapital c) : isQuote c = false := by
  rw [Text.isQuote, Bool.or_eq_false_iff, decide_eq_false_iff_not, decide_eq_false_iff_not]
  exact ⟨hc.ne (by decide), hc.ne (by decide)⟩

theorem IsCapital.isBlank {c : Char} (hc : IsCapital c) : isBlank c = false := by
  rw [Bool.eq_false_iff, Ne]
  simp only [Text.isBlank, Bool.or_eq_true, Bool.and_eq_true, decide_eq_true_eq]
  rw [IsCapital] at hc
  omega

theorem IsCapital.toUpper {c : Char} (hc : IsCapital c) : c.toUpper = c := by
  rw [IsCapital] at hc
  apply Char.toNat_inj.mp
  rw [toNat_toUpper]
  split <;> omega

theorem Capitals.append (hword : Capitals word) (hrest : Capitals rest) :
    Capitals (word ++ rest) :=
  List.forall_mem_append.mpr ⟨hword, hrest⟩

theorem Capitals.unbroken (h : Capitals s) : Unbroken s :=
  fun c hc => (h c hc).isBlank

theorem Capitals.upper (h : Capitals s) : upper s = s :=
  (List.map_congr_left fun c hc => (h c hc).toUpper).trans (List.map_id s)

end Cpm80.Text
