import Cpm80.Assembler.Statement
import Cpm80.Proofs.Words

/-!
# What stands outside quotes

The scanners of a source line look for their marks outside quotes only. What they share is said
here once: which quote is open behind a text, and what holds of its characters outside quotes. A
scanner passes over a text that has none of its marks outside quotes, and goes on behind it with
the quote that is open there.
-/
namespace Cpm80.Assembler

open Text

/-- The quote that is open behind a text. -/
def quoteBehind (quote : Option Char) (s : List Char) : Option Char :=
  s.foldl quoteAfter quote

/-- The characters of a text that stand outside quotes satisfy `p`; the quotes that open
a string count as outside. -/
def Outside (p : Char → Prop) : Option Char → List Char → Prop
  | _, [] => True
  | quote, c :: rest => (quote = none → p c) ∧ Outside p (quoteAfter quote c) rest

variable {p : Char → Prop} {quote : Option Char} {q c : Char} {s t : List Char}

@[simp] theorem quoteBehind_nil : quoteBehind quote [] = quote := rfl

@[simp] theorem quoteBehind_cons :
    quoteBehind quote (c :: s) = quoteBehind (quoteAfter quote c) s := rfl

@[simp] theorem quoteBehind_append :
    quoteBehind quote (s ++ t) = quoteBehind (quoteBehind quote s) t :=
  List.foldl_append

@[simp] theorem outside_nil : Outside p quote [] := trivial

@[simp] theorem outside_append :
    Outside p quote (s ++ t) ↔ Outside p quote s ∧ Outside p (quoteBehind quote s) t := by
  induction s generalizing quote with
  | nil => simp
  | cons c s ih =>
    rw [List.cons_append, Outside, Outside, ih, and_assoc]
    rfl

theorem outside_of_forall (h : ∀ c ∈ s, p c) : Outside p quote s := by
  induction s generalizing quote with
  | nil => trivial
  | cons c s ih =>
    obtain ⟨hc, hs⟩ := List.forall_mem_cons.mp h
    exact ⟨fun _ => hc, ih hs⟩

theorem quoteAfter_of_isQuote_eq_false (h : isQuote c = false) : quoteAfter none c = none := by
  rw [quoteAfter, h]
  rfl

theorem quoteBehind_of_forall (h : ∀ c ∈ s, isQuote c = false) : quoteBehind none s = none := by
  induction s with
  | nil => rfl
  | cons c s ih =>
    obtain ⟨hc, hs⟩ := List.forall_mem_cons.mp h
    rw [quoteBehind_cons, quoteAfter_of_isQuote_eq_false hc, ih hs]

theorem quoteBehind_body (h : q ∉ s) : quoteBehind (some q) s = some q := by
  induction s with
  | nil => rfl
  | cons c s ih =>
    obtain ⟨hc, hs⟩ := List.ne_and_not_mem_of_not_mem_cons h
    rw [quoteBehind_cons, quoteAfter, if_neg hc.symm, ih hs]

theorem isQuote_of_quoteAfter (hquote : ∀ q ∈ quote, isQuote q = true) :
    ∀ q ∈ quoteAfter quote c, isQuote q = true := by
  intro q hq
  unfold quoteAfter at hq
  split at hq
  case h_1 =>
    split at hq
    case isTrue => cases hq
    case isFalse => exact hquote q hq
  case h_2 =>
    split at hq
    case isTrue hc => exact Option.some.inj hq ▸ hc
    case isFalse => cases hq

/-- What is open behind a text is a quote. -/
theorem isQuote_of_quoteBehind (hquote : ∀ q ∈ quote, isQuote q = true) :
    ∀ q ∈ quoteBehind quote s, isQuote q = true := by
  induction s generalizing quote with
  | nil => exact hquote
  | cons c s ih => exact ih (isQuote_of_quoteAfter hquote)

/-- Only a quote closes a quote. -/
theorem quoteBehind_some_of_forall (hq : isQuote q = true) (h : ∀ c ∈ s, isQuote c = false) :
    quoteBehind (some q) s = some q := by
  refine quoteBehind_body fun hmem => ?_
  rw [h q hmem] at hq
  cases hq

/-! ## A string -/

theorem quoteAfter_self (hq : isQuote q = true) : quoteAfter none q = some q := by
  rw [quoteAfter, if_pos hq]

/-- Nothing of a string stands outside quotes but the quote in front. -/
theorem outside_body (h : q ∉ s) : Outside p (some q) s := by
  induction s with
  | nil => trivial
  | cons c s ih =>
    obtain ⟨hc, hs⟩ := List.ne_and_not_mem_of_not_mem_cons h
    refine ⟨nofun, ?_⟩
    rw [quoteAfter, if_neg hc.symm]
    exact ih hs

theorem quoteBehind_string (hq : isQuote q = true) (h : q ∉ s) :
    quoteBehind none (q :: s ++ [q]) = none := by
  have hopen : quoteBehind none (q :: s) = some q := by
    rw [quoteBehind_cons, quoteAfter_self hq, quoteBehind_body h]
  have hclosed : quoteAfter (some q) q = none := if_pos rfl
  rw [quoteBehind_append, hopen, quoteBehind_cons, hclosed, quoteBehind_nil]

theorem outside_string (hq : isQuote q = true) (h : q ∉ s) (hp : p q) :
    Outside p none (q :: s ++ [q]) := by
  rw [outside_append, quoteBehind_cons, quoteAfter_self hq, quoteBehind_body h]
  refine ⟨⟨fun _ => hp, ?_⟩, nofun, trivial⟩
  rw [quoteAfter_self hq]
  exact outside_body h

/-- An operand that begins with a string is that string only if nothing follows it. -/
theorem quoted?_closed (hq : isQuote q = true) (h : q ∉ s) (t : List Char) :
    quoted? (q :: (s ++ q :: t)) = .ok (if t = [] then some s else none) := by
  have hbody : ∀ c ∈ s, decide (c ≠ q) = true := by
    intro c hc
    rw [decide_eq_true_eq]
    rintro rfl
    exact h hc
  have hend : ¬decide (q ≠ q) = true := by simp
  rw [quoted?, if_pos hq, List.dropWhile_append_of_pos hbody, List.takeWhile_append_of_pos hbody,
    List.dropWhile_cons_of_neg (p := fun c => decide (c ≠ q)) hend,
    List.takeWhile_cons_of_neg (p := fun c => decide (c ≠ q)) hend, List.append_nil]
  cases t <;> rfl

/-- A text between quotes, as an operand, is its content. -/
theorem quoted?_string (hq : isQuote q = true) (h : q ∉ s) :
    quoted? (q :: s ++ [q]) = .ok (some s) := by
  rw [List.cons_append, quoted?_closed hq h, if_pos rfl]

/-! ## Closed quotes -/

/-- All quotes of a text are closed, and its characters outside quotes satisfy `p`. -/
structure Balanced (p : Char → Prop) (s : List Char) : Prop where
  outside : Outside p none s
  closed : quoteBehind none s = none

instance decidableOutside [DecidablePred p] :
    (quote : Option Char) → (s : List Char) → Decidable (Outside p quote s)
  | _, [] => .isTrue trivial
  | quote, c :: rest =>
    have := decidableOutside (quoteAfter quote c) rest
    inferInstanceAs (Decidable ((quote = none → p c) ∧ Outside p (quoteAfter quote c) rest))

instance [DecidablePred p] (s : List Char) : Decidable (Balanced p s) :=
  decidable_of_iff (Outside p none s ∧ quoteBehind none s = none)
    ⟨fun h => ⟨h.1, h.2⟩, fun h => ⟨h.outside, h.closed⟩⟩

theorem balanced_nil : Balanced p [] :=
  ⟨outside_nil, rfl⟩

theorem Balanced.append (hs : Balanced p s) (ht : Balanced p t) : Balanced p (s ++ t) where
  outside := by
    rw [outside_append, hs.closed]
    exact ⟨hs.outside, ht.outside⟩
  closed := by rw [quoteBehind_append, hs.closed, ht.closed]

theorem balanced_of_forall (h : ∀ c ∈ s, p c ∧ isQuote c = false) : Balanced p s :=
  ⟨outside_of_forall fun c hc => (h c hc).1, quoteBehind_of_forall fun c hc => (h c hc).2⟩

theorem balanced_string (hq : isQuote q = true) (h : q ∉ s) (hp : p q) :
    Balanced p (q :: s ++ [q]) :=
  ⟨outside_string hq h hp, quoteBehind_string hq h⟩

/-! ## Scanners -/

/-- A comment does not begin within a text that has no semicolon outside quotes. -/
theorem withoutCommentFrom_append (h : Outside (· ≠ ';') quote s) (done rest : List Char) :
    withoutCommentFrom quote done (s ++ rest) =
      withoutCommentFrom (quoteBehind quote s) (s.reverse ++ done) rest := by
  induction s generalizing quote done with
  | nil => rfl
  | cons c s ih =>
    obtain ⟨hc, hs⟩ := h
    rw [List.cons_append, withoutCommentFrom,
      if_neg fun hboth => hc (Option.isNone_iff_eq_none.mp hboth.1) hboth.2, ih hs,
      List.reverse_cons, List.append_assoc, List.singleton_append, quoteBehind_cons]

/-- A comment begins behind a text in which all quotes are closed. -/
theorem withoutComment_append (h : Balanced (· ≠ ';') s) (comment : List Char) :
    withoutComment (s ++ ';' :: comment) = s := by
  rw [withoutComment, withoutCommentFrom_append h.outside, h.closed, withoutCommentFrom,
    if_pos ⟨rfl, rfl⟩, List.append_nil, List.reverse_reverse]

theorem withoutComment_of_outside (h : Outside (· ≠ ';') none s) : withoutComment s = s := by
  have hfrom := withoutCommentFrom_append h [] []
  rwa [List.append_nil, List.append_nil, withoutCommentFrom, List.reverse_reverse] at hfrom

/-- An operand does not end within a text that has no comma outside quotes. -/
theorem splitOperandsFrom_append (h : Outside (· ≠ ',') quote s) (current rest : List Char)
    (done : List (List Char)) :
    splitOperandsFrom quote current done (s ++ rest) =
      splitOperandsFrom (quoteBehind quote s) (s.reverse ++ current) done rest := by
  induction s generalizing quote current with
  | nil => rfl
  | cons c s ih =>
    obtain ⟨hc, hs⟩ := h
    rw [List.cons_append, splitOperandsFrom,
      if_neg fun hboth => hc (Option.isNone_iff_eq_none.mp hboth.1) hboth.2, ih hs,
      List.reverse_cons, List.append_assoc, List.singleton_append, quoteBehind_cons]

def IsSign (c : Char) : Prop :=
  c = '+' ∨ c = '-'

instance : DecidablePred IsSign := fun _ => inferInstanceAs (Decidable (_ ∨ _))

/-- A term does not end within a text that has no sign outside quotes. -/
theorem splitTermsFrom_append (h : Outside (¬IsSign ·) quote s) (whole : List Char)
    (negative : Bool) (current rest : List Char) (done : List SignedText) :
    splitTermsFrom whole quote negative current done (s ++ rest) =
      splitTermsFrom whole (quoteBehind quote s) negative (s.reverse ++ current) done rest := by
  induction s generalizing quote current with
  | nil => rfl
  | cons c s ih =>
    obtain ⟨hc, hs⟩ := h
    rw [List.cons_append, splitTermsFrom,
      if_neg fun hboth => hc (Option.isNone_iff_eq_none.mp hboth.1) hboth.2, ih hs,
      List.reverse_cons, List.append_assoc, List.singleton_append, quoteBehind_cons]

end Cpm80.Assembler
