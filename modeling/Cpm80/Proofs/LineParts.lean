import Cpm80.Proofs.OperandTerms
import Cpm80.Proofs.RenderedLines

/-!
# The parts of a line

A line is cut into parts one after the other: the comment comes off first, then the label, then
the name of the operation, and what is left is cut into operands. Each cut is described by the text
in front of it and the text behind it. Blanks around a part do not matter.
-/
namespace Cpm80.Assembler

open Text

variable {quote : Option Char} {before after current front s rest : List Char}
  {done : List (List Char)} {c : Char}

theorem ne_of_isBlank {mark : Char} (hmark : isBlank mark = false) (c : Char)
    (hc : isBlank c = true) : c ≠ mark := by
  rintro rfl
  rw [hc] at hmark
  cases hmark

/-! ## Comments -/

/-- A text is what is in front of its comment, and the comment. -/
theorem exists_withoutComment (s : List Char) :
    ∃ rest, s = withoutComment s ++ rest ∧ Outside (· ≠ ';') none (withoutComment s) ∧
      (rest = [] ∨
        quoteBehind none (withoutComment s) = none ∧ ∃ comment, rest = ';' :: comment) := by
  have hfrom : ∀ quote done, ∃ front rest, s = front ++ rest ∧
      withoutCommentFrom quote done s = done.reverse ++ front ∧ Outside (· ≠ ';') quote front ∧
      (rest = [] ∨ quoteBehind quote front = none ∧ ∃ comment, rest = ';' :: comment) := by
    induction s with
    | nil => exact fun quote done => ⟨[], [], rfl, by simp [withoutCommentFrom], trivial, .inl rfl⟩
    | cons c s ih =>
      intro quote done
      rw [withoutCommentFrom]
      split
      case isTrue hboth =>
        obtain ⟨hquote, rfl⟩ := hboth
        refine ⟨[], ';' :: s, rfl, (List.append_nil _).symm, trivial, .inr ⟨?_, s, rfl⟩⟩
        exact Option.isNone_iff_eq_none.mp hquote
      case isFalse hboth =>
        obtain ⟨front, rest, rfl, hcut, hmark, hrest⟩ := ih (quoteAfter quote c) (c :: done)
        refine ⟨c :: front, rest, rfl, ?_, ⟨fun hquote hc => hboth ⟨?_, hc⟩, hmark⟩, hrest⟩
        · rw [hcut, List.reverse_cons, List.append_assoc, List.singleton_append]
        · rw [hquote]
          rfl
  obtain ⟨front, rest, hparts, hcut, hmark, hrest⟩ := hfrom none []
  obtain rfl : withoutComment s = front := hcut
  exact ⟨rest, hparts, hmark, hrest⟩

/-- What a line says, without its comment and the blanks around it. -/
def statementText (line : List Char) : List Char :=
  trim (withoutComment line)

theorem statementText_append_blank (hafter : Blank after) (s : List Char) :
    statementText (s ++ after) = statementText s := by
  have hmark : Outside (· ≠ ';') (quoteBehind none s) after :=
    outside_of_forall fun c hc => ne_of_isBlank (by decide) c (hafter c hc)
  obtain ⟨rest, hparts, houtside, hrest⟩ := exists_withoutComment s
  rw [statementText, statementText]
  rcases hrest with rfl | ⟨hclosed, comment, rfl⟩
  · rw [List.append_nil] at hparts
    rw [← hparts] at houtside
    rw [withoutComment_of_outside houtside,
      withoutComment_of_outside (outside_append.mpr ⟨houtside, hmark⟩), hafter.trim_append_right]
  · nth_rewrite 1 [hparts]
    rw [List.append_assoc, List.cons_append, withoutComment_append ⟨houtside, hclosed⟩]

/-- A comment can be put behind a line whose quotes are closed. -/
theorem statementText_append_comment (hclosed : quoteBehind none s = none) (comment : List Char) :
    statementText (s ++ ';' :: comment) = statementText s := by
  obtain ⟨rest, hparts, houtside, hrest⟩ := exists_withoutComment s
  rw [statementText, statementText]
  rcases hrest with rfl | ⟨hfront, old, rfl⟩
  · rw [List.append_nil] at hparts
    rw [← hparts] at houtside
    rw [withoutComment_of_outside houtside, withoutComment_append ⟨houtside, hclosed⟩]
  · nth_rewrite 1 [hparts]
    rw [List.append_assoc, List.cons_append, withoutComment_append ⟨houtside, hfront⟩]

/-! ## Labels and words -/

theorem labelPart?_colon (hfront : ':' ∉ front) (rest : List Char) :
    labelPart? (front ++ ':' :: rest) =
      if front.any fun c => isBlank c || isQuote c then none else some (front, rest) := by
  have hcolon : ∀ c ∈ front, decide (c ≠ ':') = true := by
    intro c hc
    rw [decide_eq_true_eq]
    rintro rfl
    exact hfront hc
  have htaken : (front ++ ':' :: rest).takeWhile (· ≠ ':') = front := by
    rw [List.takeWhile_append_of_pos hcolon, List.takeWhile_cons_of_neg (by decide),
      List.append_nil]
  have hleft : (front ++ ':' :: rest).dropWhile (· ≠ ':') = ':' :: rest := by
    rw [List.dropWhile_append_of_pos hcolon, List.dropWhile_cons_of_neg (by decide)]
  rw [labelPart?, hleft]
  dsimp only
  rw [htaken]

/-- The label is what stands in front of the first colon. -/
theorem labelPart?_of_isIdentifier {name : List Char} (h : isIdentifier name = true)
    (rest : List Char) : labelPart? (name ++ ':' :: rest) = some (name, rest) := by
  have hplain : ∀ c ∈ name, isSymbolChar c = true := isSymbolChar_of_isIdentifier h
  have hcolon : ':' ∉ name := fun hmem => absurd (hplain _ hmem) (by decide)
  have hclean : ¬(name.any fun c => isBlank c || isQuote c) = true := by
    rw [List.any_eq_true]
    rintro ⟨c, hc, hmark⟩
    obtain ⟨-, hquote, hblank⟩ := plain_of_isSymbolChar (hplain c hc)
    rw [hquote, hblank] at hmark
    cases hmark
  rw [labelPart?_colon hcolon, if_neg hclean]

/-- A word with a blank behind it is no label, wherever there are colons. -/
theorem labelPart?_of_blank (hfront : ':' ∉ front) (hc : isBlank c = true) (rest : List Char) :
    labelPart? (front ++ c :: rest) = none := by
  have hcolon : c ≠ ':' := ne_of_isBlank (by decide) c hc
  by_cases hmem : ':' ∈ rest
  · obtain ⟨middle, back, rfl, hmiddle⟩ := List.eq_append_cons_of_mem hmem
    have hnone : ':' ∉ front ++ c :: middle := by
      rw [List.mem_append, List.mem_cons]
      rintro (hin | heq | hin)
      · exact hfront hin
      · exact hcolon heq.symm
      · exact hmiddle hin
    have hblank : (front ++ c :: middle).any fun c => isBlank c || isQuote c := by
      rw [List.any_eq_true]
      exact ⟨c, List.mem_append_right _ List.mem_cons_self, by rw [hc, Bool.true_or]⟩
    rw [← List.cons_append, ← List.append_assoc, labelPart?_colon hnone, if_pos hblank]
  · apply labelPart?_of_notMem
    rw [List.mem_append, List.mem_cons]
    rintro (hin | heq | hin)
    · exact hfront hin
    · exact hcolon heq.symm
    · exact hmem hin

theorem splitWord_blank_append (h : Blank before) (s : List Char) :
    splitWord (before ++ s) = splitWord s := by
  rw [splitWord, h.trimStart_append, splitWord]

/-- A text is its first word with blanks in front, and what follows it. -/
theorem exists_splitWord (s : List Char) :
    ∃ before, Blank before ∧ s = before ++ ((splitWord s).1 ++ (splitWord s).2) ∧
      Unbroken (splitWord s).1 ∧ (∀ c ∈ (splitWord s).2.head?, isBlank c = true) ∧
      ((splitWord s).1 = [] → (splitWord s).2 = []) := by
  rw [splitWord, List.span_eq_takeWhile_dropWhile]
  refine ⟨s.takeWhile isBlank, fun c hc => List.mem_takeWhile_imp hc, ?_, ?_, ?_, ?_⟩
  · rw [List.takeWhile_append_dropWhile, trimStart, List.takeWhile_append_dropWhile]
  · intro c hc
    have hnot := List.mem_takeWhile_imp hc
    rwa [Bool.not_eq_true'] at hnot
  · intro c hc
    have hstop := List.head?_dropWhile_not (fun c => !isBlank c) (trimStart s)
    dsimp only at hc
    rw [hc] at hstop
    simpa using hstop
  · intro hnone
    dsimp only at hnone ⊢
    cases htrimmed : trimStart s with
    | nil => rfl
    | cons c rest =>
      have hc : isBlank c = false := head?_trimStart s c (by rw [htrimmed]; rfl)
      have hkept : (!isBlank c) = true := by rw [hc]; rfl
      rw [htrimmed, List.takeWhile_cons_of_pos (p := fun c => !isBlank c) hkept] at hnone
      cases hnone

/-! ## Operands with blanks around them -/

/-- Blanks in front of an operand do not matter. -/
theorem splitOperandsFrom_current_blank (hbefore : Blank before) (current : List Char) :
    splitOperandsFrom quote (current ++ before) done s =
      splitOperandsFrom quote current done s := by
  have htrim (current : List Char) : trim (current ++ before).reverse = trim current.reverse := by
    rw [List.reverse_append, trim, hbefore.reverse.trimStart_append, trim]
  induction s generalizing quote current with
  | nil => rw [splitOperandsFrom, splitOperandsFrom, htrim]
  | cons c s ih => rw [splitOperandsFrom, splitOperandsFrom, htrim, ← List.cons_append, ih]

theorem splitOperandsFrom_blank_append (hbefore : Blank before) :
    splitOperandsFrom none [] done (before ++ s) = splitOperandsFrom none [] done s := by
  have huncut := uncut_of_blank hbefore
  have hcomma : Outside (· ≠ ',') none before :=
    outside_of_forall fun c hc => ne_of_isBlank (by decide) c (hbefore c hc)
  rw [splitOperandsFrom_append hcomma, huncut.closed, List.append_nil]
  exact splitOperandsFrom_current_blank hbefore.reverse []

theorem splitOperandsFrom_append_blank (hafter : Blank after) :
    splitOperandsFrom quote current done (s ++ after) = splitOperandsFrom quote current done s := by
  induction s generalizing quote current done with
  | nil =>
    have hcomma : Outside (· ≠ ',') quote after :=
      outside_of_forall fun c hc => ne_of_isBlank (by decide) c (hafter c hc)
    have hend := splitOperandsFrom_append hcomma current [] done
    rw [List.append_nil] at hend
    rw [List.nil_append, hend, splitOperandsFrom, splitOperandsFrom, List.reverse_append,
      List.reverse_reverse, hafter.trim_append_right]
  | cons c s ih => rw [List.cons_append, splitOperandsFrom, splitOperandsFrom, ih, ih]

/-- Operands are cut apart as if they were not trimmed as a whole. -/
theorem splitOperands_of_not_blank (h : ¬Blank s) :
    splitOperands s = splitOperandsFrom none [] [] s := by
  obtain ⟨before, after, hbefore, hafter, heq⟩ := exists_blanks_trim s
  have hsome : ¬(trim s).isEmpty = true := by
    rw [List.isEmpty_iff, trim_eq_nil_iff_blank]
    exact h
  rw [splitOperands, if_neg hsome]
  nth_rewrite 2 [heq]
  rw [splitOperandsFrom_append_blank hafter, splitOperandsFrom_blank_append hbefore]

end Cpm80.Assembler
