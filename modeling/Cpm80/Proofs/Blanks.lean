import Cpm80.Proofs.FileNames

/-!
# Blanks around a text

A text is its trimmed form with blanks around it, and blanks around a text without a blank at its
ends are what trimming takes off.
-/
namespace Cpm80.Text

/-- Nothing but blanks. -/
def Blank (s : List Char) : Prop :=
  ∀ c ∈ s, isBlank c = true

instance (s : List Char) : Decidable (Blank s) :=
  List.decidableBAll (fun c => isBlank c = true) s

variable {before after s : List Char}

theorem blank_nil : Blank [] := nofun

theorem Blank.append (hs : Blank s) (hafter : Blank after) : Blank (s ++ after) :=
  List.forall_mem_append.mpr ⟨hs, hafter⟩

theorem Blank.reverse (h : Blank s) : Blank s.reverse :=
  fun c hc => h c (List.mem_reverse.mp hc)

theorem Blank.trimStart_append (h : Blank before) (s : List Char) :
    trimStart (before ++ s) = trimStart s := by
  rw [trimStart, List.dropWhile_append_of_pos h, trimStart]

theorem Blank.trimStart_eq (h : Blank s) : trimStart s = [] :=
  List.dropWhile_eq_nil_iff.mpr h

theorem Blank.trimEnd_append (h : Blank after) (s : List Char) :
    trimEnd (s ++ after) = trimEnd s := by
  rw [trimEnd, List.reverse_append, List.dropWhile_append_of_pos h.reverse, trimEnd]

/-- What is in front of a blank end and ends in no blank is what is left. -/
theorem trimEnd_of_getLast? (h : ∀ c ∈ s.getLast?, isBlank c = false) : trimEnd s = s := by
  have hstart : ∀ c ∈ s.reverse.head?, isBlank c = false := by
    rw [List.head?_reverse]
    exact h
  have htrimmed := trimStart_of_head? hstart
  rw [trimStart] at htrimmed
  rw [trimEnd, htrimmed, List.reverse_reverse]

theorem Blank.trim_append (hbefore : Blank before) (hafter : Blank after) (h : Tight s) :
    trim (before ++ s ++ after) = s := by
  rw [trim, List.append_assoc, hbefore.trimStart_append]
  cases s with
  | nil => rw [List.nil_append, hafter.trimStart_eq, trimEnd_nil]
  | cons c s =>
    have hstart : trimStart (c :: s ++ after) = c :: s ++ after := trimStart_of_head? h.1
    rw [hstart, hafter.trimEnd_append, trimEnd_of_getLast? h.2]

/-- Trimming does not go past a character that is not a blank. -/
theorem trimStart_append_cons {c : Char} (hc : isBlank c = false) (s t : List Char) :
    trimStart (s ++ c :: t) = trimStart s ++ c :: t := by
  rw [trimStart, List.dropWhile_append, ← trimStart]
  split
  case isTrue hempty =>
    rw [List.isEmpty_iff.mp hempty, List.nil_append, ← trimStart]
    exact trimStart_of_head? fun d hd => Option.some.inj hd ▸ hc
  case isFalse => rfl

theorem trimEnd_append_cons {c : Char} (hc : isBlank c = false) (s t : List Char) :
    trimEnd (s ++ c :: t) = s ++ c :: trimEnd t := by
  have hreverse : (s ++ c :: t).reverse = t.reverse ++ c :: s.reverse := by
    rw [List.reverse_append, List.reverse_cons, List.append_assoc, List.singleton_append]
  have hdrop := trimStart_append_cons hc t.reverse s.reverse
  rw [trimStart, trimStart] at hdrop
  rw [trimEnd, hreverse, hdrop, trimEnd, List.reverse_append, List.reverse_cons,
    List.reverse_reverse, List.append_assoc, List.singleton_append]

theorem exists_blank_trimEnd (s : List Char) : ∃ after, Blank after ∧ s = trimEnd s ++ after := by
  have hparts := List.takeWhile_append_dropWhile (p := isBlank) (l := s.reverse)
  refine ⟨(s.reverse.takeWhile isBlank).reverse, ?_, ?_⟩
  · intro c hc
    exact List.mem_takeWhile_imp (List.mem_reverse.mp hc)
  · rw [trimEnd, ← List.reverse_append, hparts, List.reverse_reverse]

/-- A text is its trimmed form with blanks around it. -/
theorem exists_blanks_trim (s : List Char) :
    ∃ before after, Blank before ∧ Blank after ∧ s = before ++ trim s ++ after := by
  obtain ⟨after, hafter, hparts⟩ := exists_blank_trimEnd (trimStart s)
  refine ⟨s.takeWhile isBlank, after, fun c hc => List.mem_takeWhile_imp hc, hafter, ?_⟩
  rw [List.append_assoc, trim, ← hparts, trimStart, List.takeWhile_append_dropWhile]

/-- Blanks at the end of a text do not matter. -/
theorem Blank.trim_append_right (h : Blank after) (s : List Char) :
    trim (s ++ after) = trim s := by
  obtain ⟨front, back, hfront, hback, hparts⟩ := exists_blanks_trim s
  nth_rewrite 1 [hparts]
  rw [List.append_assoc]
  exact hfront.trim_append (hback.append h) (tight_trim s)

/-- Blanks in front of a text do not matter. -/
theorem Blank.trim_append_left (h : Blank before) (s : List Char) :
    trim (before ++ s) = trim s := by
  rw [trim, h.trimStart_append, trim]

theorem trim_trimEnd (s : List Char) : trim (trimEnd s) = trim s := by
  obtain ⟨after, hafter, hparts⟩ := exists_blank_trimEnd s
  nth_rewrite 2 [hparts]
  exact (hafter.trim_append_right (trimEnd s)).symm

theorem blank_upper (h : Blank s) : Blank (upper s) := by
  intro c hc
  obtain ⟨d, hd, rfl⟩ := List.mem_map.mp hc
  rw [isBlank_toUpper]
  exact h d hd

theorem trim_upper (s : List Char) : trim (upper s) = upper (trim s) := by
  obtain ⟨before, after, hbefore, hafter, hparts⟩ := exists_blanks_trim s
  nth_rewrite 1 [hparts]
  rw [upper_append, upper_append]
  exact (blank_upper hbefore).trim_append (blank_upper hafter) (tight_trim s).upper

theorem trim_eq_nil_iff_blank : trim s = [] ↔ Blank s := by
  constructor
  · intro h
    obtain ⟨before, after, hbefore, hafter, hs⟩ := exists_blanks_trim s
    rw [h, List.append_nil] at hs
    rw [hs]
    exact hbefore.append hafter
  · intro h
    rw [trim, h.trimStart_eq, trimEnd_nil]

end Cpm80.Text
