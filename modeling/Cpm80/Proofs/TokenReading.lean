import Cpm80.Proofs.ExpressionTrees
import Cpm80.Proofs.Words
import Mathlib.Data.List.TakeDrop
import Mathlib.Data.List.TakeWhile

/-!
# Reading tokens

What each reader makes of a text that starts with blanks and a token. What a reader gives back
is looked at without the proof that it has become shorter. A mark is read wherever it stands; a
number or a name has to be followed by a blank or a mark, so that it ends where it does.
-/
namespace Cpm80.Basic

variable {α : Type} {n : Nat} {s t blanks rest : List Char} {c d : Char}

/-- What has been read and what is left. -/
def Reading.parts (q : Reading α n) : α × List Char :=
  (q.value, q.rest)

theorem exists_of_parts {q : Option (Reading α n)} {x : α}
    (h : q.map Reading.parts = some (x, rest)) :
    ∃ hshorter, q = some ⟨x, rest, hshorter⟩ := by
  obtain ⟨⟨y, t, hshorter⟩, rfl, hparts⟩ := Option.map_eq_some_iff.mp h
  obtain ⟨rfl, rfl⟩ := Prod.mk.inj hparts
  exact ⟨hshorter, rfl⟩

/-! ## Blanks and marks -/

theorem skipSpaces_append (h : ∀ c ∈ blanks, isSpace c) (s : List Char) :
    skipSpaces (blanks ++ s) = skipSpaces s :=
  List.dropWhile_append_of_pos h

theorem skipSpaces_cons (hc : isSpace c = false) (s : List Char) : skipSpaces (c :: s) = c :: s :=
  List.dropWhile_cons_of_neg (by simp [hc])

theorem skipSpaces_of_blank (h : ∀ c ∈ blanks, isSpace c) : skipSpaces blanks = [] :=
  List.dropWhile_eq_nil_iff.mpr h

/-- A token in front is what is seen behind the blanks. -/
theorem skipSpaces_token (h : ∀ c ∈ blanks, isSpace c) (hc : isSpace c = false) (s : List Char) :
    skipSpaces (blanks ++ c :: s) = c :: s := by
  rw [skipSpaces_append h, skipSpaces_cons hc]

theorem peek_of_skipSpaces (h : skipSpaces s = c :: rest) : peek s = some c := by
  rw [peek, h, List.head?_cons]

theorem eat?_of_skipSpaces (h : skipSpaces s = c :: rest) :
    ∃ hshorter, eat? c s = some ⟨(), rest, hshorter⟩ := by
  unfold eat?
  split
  case h_1 hnil => simp [hnil] at h
  case h_2 d more hcons =>
    obtain ⟨rfl, rfl⟩ := List.cons.inj (hcons.symm.trans h)
    have hlength := length_skipSpaces s
    rw [hcons, List.length_cons] at hlength
    exact ⟨hlength, if_pos rfl⟩

theorem eat?_eq_none (h : peek s ≠ some c) : eat? c s = none := by
  unfold eat?
  split
  case h_1 hnil => rfl
  case h_2 d more hcons =>
    have hd : d ≠ c := fun heq => h (heq ▸ peek_of_skipSpaces hcons)
    rw [if_neg hd]

theorem eat?_eq_none_of_peek (h : peek s = some d) (hne : d ≠ c) : eat? c s = none :=
  eat?_eq_none fun heq => hne (Option.some.inj (h.symm.trans heq))

/-! ## Relations -/

theorem relation?_of_skipSpaces (h : skipSpaces s = c :: rest) :
    (relation? s).map Reading.parts =
      match c, rest.head? with
      | '<', some '=' => some (.atMost, rest.drop 1)
      | '>', some '=' => some (.atLeast, rest.drop 1)
      | '<', some '>' => some (.different, rest.drop 1)
      | '<', _ => some (.less, rest)
      | '>', _ => some (.greater, rest)
      | '=', _ => some (.equal, rest)
      | _, _ => none := by
  unfold relation?
  split
  case h_1 hnil => simp [hnil] at h
  case h_2 d more hcons =>
    obtain ⟨rfl, rfl⟩ := List.cons.inj (hcons.symm.trans h)
    dsimp only
    split <;> simp_all [Reading.parts]

theorem relation?_eq_none (h : ∀ c ∈ peek s, c ∉ ['<', '>', '=']) : relation? s = none := by
  unfold relation?
  split
  case h_1 hnil => rfl
  case h_2 c more hcons =>
    have hc := h c (peek_of_skipSpaces hcons)
    simp only [List.mem_cons, List.not_mem_nil, or_false, not_or] at hc
    dsimp only
    split <;> simp_all

/-- The sign of a relation is read whole, since nothing that starts an operand is part of
one. -/
theorem relation?_token (r : Relation) (hblanks : ∀ c ∈ blanks, isSpace c)
    (hrest : ∀ c ∈ rest.head?, c ≠ '=' ∧ c ≠ '>') :
    (relation? (blanks ++ (r.token ++ rest))).map Reading.parts = some (r, rest) := by
  have hequal : rest.head? ≠ some '=' := fun h => (hrest '=' h).1 rfl
  have hgreater : rest.head? ≠ some '>' := fun h => (hrest '>' h).2 rfl
  cases r with
  | atMost | atLeast | different | equal =>
    rw [Relation.token, List.cons_append, relation?_of_skipSpaces
      (skipSpaces_token hblanks (by decide) _)]
    rfl
  | less | greater =>
    rw [Relation.token, List.cons_append, List.nil_append, relation?_of_skipSpaces
      (skipSpaces_token hblanks (by decide) _)]
    split <;> simp_all

/-! ## Texts, numbers and names -/

theorem string?_token {text : List Char} (hblanks : ∀ c ∈ blanks, isSpace c) (h : '"' ∉ text)
    (rest : List Char) :
    (string? (blanks ++ (('"' :: (text ++ ['"'])) ++ rest))).map Reading.parts =
      some (text, rest) := by
  have hskip : skipSpaces (blanks ++ (('"' :: (text ++ ['"'])) ++ rest)) =
      '"' :: (text ++ '"' :: rest) := by
    rw [List.cons_append, List.append_assoc]
    exact skipSpaces_token hblanks (by decide) _
  obtain ⟨hshorter, hfound⟩ := eat?_of_skipSpaces hskip
  have hpos : ∀ c ∈ text, decide (c ≠ '"') = true := by
    intro c hc
    rw [decide_eq_true_eq]
    rintro rfl
    exact h hc
  have htake : (text ++ '"' :: rest).takeWhile (· ≠ '"') = text := by
    rw [List.takeWhile_append_of_pos hpos, List.takeWhile_cons_of_neg (by simp),
      List.append_nil]
  have hdrop : (text ++ '"' :: rest).dropWhile (· ≠ '"') = '"' :: rest := by
    rw [List.dropWhile_append_of_pos hpos, List.dropWhile_cons_of_neg (by simp)]
  unfold string?
  rw [hfound]
  dsimp only
  split
  case h_1 hnil => cases hdrop.symm.trans hnil
  case h_2 quote after hcons =>
    obtain ⟨-, rfl⟩ := List.cons.inj (hdrop.symm.trans hcons)
    simp only [Option.map_some, Reading.parts, htake]

/-- What can stand between two operands. -/
def separators : List Char :=
  [' ', '\t', '\n', '\r', '\x0c', '+', '-', '*', '/', '^', '<', '>', '=', ')']

/-- Nothing follows, or a separator: no number and no name goes on here. -/
def Apart (s : List Char) : Prop :=
  ∀ c ∈ s.head?, c ∈ separators

theorem mem_separators_of_isSpace (h : isSpace c) : c ∈ separators := by
  simp only [isSpace, Bool.or_eq_true, decide_eq_true_eq] at h
  rcases h with (((rfl | rfl) | rfl) | rfl) | rfl <;> decide

theorem apart_of_blank (h : ∀ c ∈ blanks, isSpace c) : Apart blanks :=
  fun c hc => mem_separators_of_isSpace (h c (List.mem_of_mem_head? hc))

theorem apart_token (h : ∀ c ∈ blanks, isSpace c) (hc : c ∈ separators) (s : List Char) :
    Apart (blanks ++ c :: s) := by
  intro d hd
  cases blanks with
  | nil => exact Option.some.inj hd ▸ hc
  | cons b blanks => exact Option.some.inj hd ▸ mem_separators_of_isSpace (h b List.mem_cons_self)

section Classes

/-! What a class of characters without separators is good for. -/

variable {p : Char → Bool} (hp : separators.any p = false)
include hp

theorem eq_false_of_mem_separators (h : c ∈ separators) : p c = false :=
  Bool.eq_false_iff.mpr (List.any_eq_false.mp hp c h)

theorem Apart.takeWhile_eq (h : Apart s) : s.takeWhile p = [] := by
  cases s with
  | nil => rfl
  | cons c s =>
    exact List.takeWhile_cons_of_neg (List.any_eq_false.mp hp c (h c rfl))

theorem Apart.dropWhile_eq (h : Apart s) : s.dropWhile p = s := by
  cases s with
  | nil => rfl
  | cons c s =>
    exact List.dropWhile_cons_of_neg (List.any_eq_false.mp hp c (h c rfl))

theorem isSpace_eq_false (h : p c) : isSpace c = false := by
  rw [Bool.eq_false_iff]
  intro hspace
  rw [eq_false_of_mem_separators hp (mem_separators_of_isSpace hspace)] at h
  cases h

end Classes

theorem isSpace_of_isNumeralChar (h : isNumeralChar c) : isSpace c = false :=
  isSpace_eq_false (by decide) h

theorem isSpace_of_isAlpha (h : c.isAlpha) : isSpace c = false :=
  isSpace_eq_false (by decide) h

theorem isNumeralChar_of_isAlpha (h : c.isAlpha) : isNumeralChar c = false := by
  rw [Text.isAlpha_iff] at h
  rw [Bool.eq_false_iff]
  intro hnumeral
  rw [isNumeralChar, Bool.or_eq_true, decide_eq_true_eq] at hnumeral
  rcases hnumeral with hdigit | rfl
  · have hrange : 48 ≤ c.toNat ∧ c.toNat ≤ 57 :=
      ((Bool.and_eq_true_iff (x := decide _)).trans
        (and_congr decide_eq_true_iff decide_eq_true_iff)).mp hdigit
    omega
  · exact absurd h (by decide)

theorem exponentLength_of_isExponent {exponent : List Char} (h : IsExponent exponent)
    (hrest : Apart rest) : exponentLength (exponent ++ rest) = exponent.length := by
  cases h with
  | none =>
    cases rest with
    | nil => rfl
    | cons c rest =>
      have hletters : ¬separators.any fun d => d = 'e' ∨ d = 'E' := by decide
      have hletter : ¬(c = 'e' ∨ c = 'E') := fun h =>
        hletters (List.any_eq_true.mpr ⟨c, hrest c rfl, decide_eq_true h⟩)
      unfold exponentLength
      exact if_neg hletter
  | @some letter sign digits hletter hsign hne hdigits =>
    have hstop : rest.takeWhile Char.isDigit = [] := Apart.takeWhile_eq (by decide) hrest
    have htake : (digits ++ rest).takeWhile Char.isDigit = digits := by
      rw [List.takeWhile_append_of_pos hdigits, hstop, List.append_nil]
    have hpos : digits.length ≠ 0 := by simpa using hne
    rw [List.cons_append]
    unfold exponentLength
    simp only [if_pos hletter]
    rcases hsign with rfl | rfl | rfl
    · obtain ⟨first, more, rfl⟩ := List.exists_cons_of_ne_nil hne
      have hfirst : ¬(first = '+' ∨ first = '-') := by
        rintro (rfl | rfl) <;> exact absurd (hdigits _ List.mem_cons_self) (by decide)
      simp only [List.nil_append, List.cons_append] at htake ⊢
      simp only [if_neg hfirst, List.drop_zero, htake]
      rw [if_neg hpos]
      simp only [List.length_cons]
      omega
    all_goals
      simp [htake, hpos]
      omega

theorem isNumeralChar_ne_of_isExponent {exponent : List Char} (h : IsExponent exponent)
    (hrest : Apart rest) : (exponent ++ rest).takeWhile isNumeralChar = [] := by
  cases h with
  | none => exact Apart.takeWhile_eq (by decide) hrest
  | some hletter =>
    rcases hletter with rfl | rfl <;> exact List.takeWhile_cons_of_neg (by decide)

theorem number?_token (n : Literal) (hblanks : ∀ c ∈ blanks, isSpace c) (hrest : Apart rest) :
    (number? (blanks ++ (n.token ++ rest))).map Reading.parts = some (n.value, rest) := by
  obtain ⟨first, more, hmantissa⟩ := List.exists_cons_of_ne_nil n.mantissa_ne
  have hfirst : isSpace first = false :=
    isSpace_of_isNumeralChar (n.isNumeralChar_mantissa first (hmantissa ▸ List.mem_cons_self))
  have hskip : skipSpaces (blanks ++ (n.token ++ rest)) = n.token ++ rest := by
    rw [Literal.token, hmantissa]
    exact skipSpaces_token hblanks hfirst _
  have htake : ((n.token ++ rest).takeWhile isNumeralChar).length = n.mantissa.length := by
    rw [Literal.token, List.append_assoc,
      List.takeWhile_append_of_pos n.isNumeralChar_mantissa,
      isNumeralChar_ne_of_isExponent n.isExponent hrest, List.append_nil]
  have hexponent : exponentLength ((n.token ++ rest).drop n.mantissa.length) =
      n.exponent.length := by
    rw [Literal.token, List.append_assoc, List.drop_left,
      exponentLength_of_isExponent n.isExponent hrest]
  have hlength : n.mantissa.length + n.exponent.length = n.token.length := by
    rw [Literal.token, List.length_append]
  have hpos : 0 < n.mantissa.length := List.length_pos_iff.mpr n.mantissa_ne
  have hvalue : Decimal.unsigned? n.token = some n.value := n.converted
  simp only [number?, hskip, htake, hexponent, hlength, dif_pos hpos, List.take_left, hvalue,
    Option.map_some, Reading.parts, List.drop_left]

theorem identifier?_of_skipSpaces (h : skipSpaces s = c :: rest) (hc : c.isAlpha) :
    (identifier? s).map Reading.parts =
      let word := (c :: rest.takeWhile Char.isAlphanum).map Char.toUpper
      let after := rest.dropWhile Char.isAlphanum
      if after.head? = some '$' then some (String.ofList (word ++ ['$']), after.drop 1)
      else some (String.ofList word, after) := by
  unfold identifier?
  split
  case h_1 hnil => simp [hnil] at h
  case h_2 d more hcons =>
    obtain ⟨rfl, rfl⟩ := List.cons.inj (hcons.symm.trans h)
    simp only [if_pos hc]
    split <;> rfl

theorem identifier?_token (n : Identifier) (hblanks : ∀ c ∈ blanks, isSpace c)
    (hrest : Apart rest) :
    (identifier? (blanks ++ (n.token ++ rest))).map Reading.parts = some (n.name, rest) := by
  have hfirst : isSpace n.first = false := isSpace_of_isAlpha n.isAlpha_first
  have hskip : skipSpaces (blanks ++ (n.token ++ rest)) =
      n.first :: (n.more ++ (n.mark ++ rest)) := by
    rw [Identifier.token, List.cons_append, List.append_assoc]
    exact skipSpaces_token hblanks hfirst _
  have hend : (n.mark ++ rest).takeWhile Char.isAlphanum = [] ∧
      (n.mark ++ rest).dropWhile Char.isAlphanum = n.mark ++ rest := by
    unfold Identifier.mark
    split
    case isTrue => exact ⟨rfl, rfl⟩
    case isFalse =>
      exact ⟨Apart.takeWhile_eq (by decide) hrest, Apart.dropWhile_eq (by decide) hrest⟩
  rw [identifier?_of_skipSpaces hskip n.isAlpha_first,
    List.takeWhile_append_of_pos n.isAlphanum_more, hend.1,
    List.dropWhile_append_of_pos n.isAlphanum_more, hend.2, List.append_nil,
    Identifier.name, Identifier.token, Identifier.mark]
  have hdollar : rest.head? ≠ some '$' := fun h => absurd (hrest '$' h) (by decide)
  cases n.forText with
  | true => simp [Text.upper]
  | false => simp [Text.upper, hdollar]

end Cpm80.Basic
