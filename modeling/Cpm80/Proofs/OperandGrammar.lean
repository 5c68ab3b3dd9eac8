import Cpm80.Proofs.Expressions
import Cpm80.Proofs.OperandTerms

/-!
# The grammar of operands

Which texts are expressions, and what their values are, said without a scanner: signed terms with
blanks around them. The value of an expression is the sum of its terms, and no partial sum leaves
64 bits. An operand has a value exactly if it is such an expression, and has that value then.

The documented grammar has at most one sign in front of the first term. A row of signs there is
read as well: each replaces the one before it. Between two terms a second sign is an error.
-/
namespace Cpm80.Assembler

open Text

/-- The value that a term adds to the sum. -/
def signed (negative : Bool) (v : Int) : Int :=
  if negative then -v else v

/-- Terms with one sign between each two of them; the sign of the first is given. -/
inductive IsSum (symbols : Symbols) (here : UInt16) : Bool → List Char → List Int → Prop
  | last {negative : Bool} {before t after : List Char} {v : Int} (hbefore : Blank before)
    (ht : IsTerm symbols here t v) (hafter : Blank after) :
    IsSum symbols here negative (before ++ t ++ after) [signed negative v]
  | more {negative : Bool} {before t after s : List Char} {sign : Char} {v : Int}
    {values : List Int} (hbefore : Blank before) (ht : IsTerm symbols here t v)
    (hafter : Blank after) (hsign : IsSign sign) (hs : IsSum symbols here (sign = '-') s values) :
    IsSum symbols here negative (before ++ t ++ after ++ sign :: s) (signed negative v :: values)

/-- Terms with a number of signs in front of them, of which the last one counts. -/
inductive IsExpression (symbols : Symbols) (here : UInt16) :
    Bool → Nat → List Char → List Int → Prop
  | terms {negative : Bool} {s : List Char} {values : List Int}
    (h : IsSum symbols here negative s values) : IsExpression symbols here negative 0 s values
  | sign {negative : Bool} {signs : Nat} {before s : List Char} {sign : Char} {values : List Int}
    (hbefore : Blank before) (hsign : IsSign sign)
    (h : IsExpression symbols here (sign = '-') signs s values) :
    IsExpression symbols here negative (signs + 1) (before ++ sign :: s) values

/-- A text is an expression with a number of signs in front and a value. -/
def Denotes (symbols : Symbols) (here : UInt16) (signs : Nat) (text : List Char) (v : Int) : Prop :=
  ∃ values, IsExpression symbols here false signs text values ∧
    (∀ k, FitsSigned64 (values.take k).sum) ∧ v = values.sum

/-- The number of signs in front of the first character that is neither a sign nor a blank. -/
def leadingSigns : List Char → Nat
  | [] => 0
  | c :: s =>
    if isBlank c then leadingSigns s
    else if IsSign c then leadingSigns s + 1
    else 0

variable {symbols : Symbols} {here : UInt16} {negative : Bool} {signs : Nat} {sign : Char}
  {s t before after text : List Char} {v : Int} {values : List Int}

/-! ## Signs in front -/

theorem leadingSigns_blank_append (h : Blank before) (s : List Char) :
    leadingSigns (before ++ s) = leadingSigns s := by
  induction before with
  | nil => rfl
  | cons c before ih =>
    obtain ⟨hc, hbefore⟩ := List.forall_mem_cons.mp h
    rw [List.cons_append, leadingSigns, if_pos hc, ih hbefore]

theorem leadingSigns_sign_cons (h : IsSign sign) (s : List Char) :
    leadingSigns (sign :: s) = leadingSigns s + 1 := by
  rw [leadingSigns, if_neg (by rw [isBlank_of_isSign h]; decide), if_pos h]

theorem IsTerm.leadingSigns_append (h : IsTerm symbols here t v) (s : List Char) :
    leadingSigns (t ++ s) = 0 := by
  obtain ⟨huncut, htight, hsome⟩ := h.uncut
  obtain ⟨c, t, rfl⟩ := List.exists_cons_of_ne_nil hsome
  have hblank : isBlank c = false := htight.1 c rfl
  have hsign : ¬IsSign c := huncut.outside.1 rfl
  rw [List.cons_append, leadingSigns, if_neg (by rw [hblank]; decide), if_neg hsign]

theorem IsSum.leadingSigns (h : IsSum symbols here negative s values) : leadingSigns s = 0 := by
  cases h with
  | last hbefore ht hafter =>
    rw [List.append_assoc, leadingSigns_blank_append hbefore, ht.leadingSigns_append]
  | more hbefore ht hafter hsign hs =>
    rw [List.append_assoc, List.append_assoc, leadingSigns_blank_append hbefore,
      ht.leadingSigns_append]

/-- A text is read with as many signs in front as it has. -/
theorem IsExpression.leadingSigns (h : IsExpression symbols here negative signs s values) :
    leadingSigns s = signs := by
  induction h with
  | terms h => exact h.leadingSigns
  | sign hbefore hsign h ih =>
    rw [leadingSigns_blank_append hbefore, leadingSigns_sign_cons hsign, ih]

theorem Denotes.leadingSigns (h : Denotes symbols here signs text v) : leadingSigns text = signs :=
  h.choose_spec.1.leadingSigns

/-! ## Trimming -/

theorem IsSum.ne_nil (h : IsSum symbols here negative s values) : s ≠ [] := by
  cases h with
  | last hbefore ht hafter => simp [ht.uncut.2.2]
  | more hbefore ht hafter hsign hs => simp

theorem IsExpression.ne_nil (h : IsExpression symbols here negative signs s values) : s ≠ [] := by
  cases h with
  | terms h => exact h.ne_nil
  | sign hbefore hsign h => simp

theorem IsSum.blank_append (hfront : Blank text) (h : IsSum symbols here negative s values) :
    IsSum symbols here negative (text ++ s) values := by
  cases h with
  | last hbefore ht hafter =>
    rw [← List.append_assoc, ← List.append_assoc]
    exact .last (hfront.append hbefore) ht hafter
  | more hbefore ht hafter hsign hs =>
    rw [← List.append_assoc, ← List.append_assoc, ← List.append_assoc]
    exact .more (hfront.append hbefore) ht hafter hsign hs

theorem IsSum.append_blank (hend : Blank text) (h : IsSum symbols here negative s values) :
    IsSum symbols here negative (s ++ text) values := by
  induction h with
  | last hbefore ht hafter =>
    rw [List.append_assoc]
    exact .last hbefore ht (hafter.append hend)
  | more hbefore ht hafter hsign hs ih =>
    rw [List.append_assoc, List.cons_append]
    exact .more hbefore ht hafter hsign ih

theorem IsExpression.blank_append (hfront : Blank text)
    (h : IsExpression symbols here negative signs s values) :
    IsExpression symbols here negative signs (text ++ s) values := by
  cases h with
  | terms h => exact .terms (h.blank_append hfront)
  | sign hbefore hsign h =>
    rw [← List.append_assoc]
    exact .sign (hfront.append hbefore) hsign h

theorem IsExpression.append_blank (hend : Blank text)
    (h : IsExpression symbols here negative signs s values) :
    IsExpression symbols here negative signs (s ++ text) values := by
  induction h with
  | terms h => exact .terms (h.append_blank hend)
  | sign hbefore hsign h ih =>
    rw [List.append_assoc, List.cons_append]
    exact .sign hbefore hsign ih

theorem IsTerm.trimStart_append (hbefore : Blank before) (h : IsTerm symbols here t v)
    (s : List Char) : trimStart (before ++ t ++ s) = t ++ s := by
  obtain ⟨-, htight, hsome⟩ := h.uncut
  obtain ⟨c, t, rfl⟩ := List.exists_cons_of_ne_nil hsome
  rw [List.append_assoc, hbefore.trimStart_append]
  exact trimStart_of_head? htight.1

theorem IsSum.trimStart (h : IsSum symbols here negative s values) :
    IsSum symbols here negative (trimStart s) values := by
  cases h with
  | last hbefore ht hafter =>
    rw [ht.trimStart_append hbefore]
    exact .last blank_nil ht hafter
  | @more _ before t after s sign v values hbefore ht hafter hsign hs =>
    rw [List.append_assoc, ht.trimStart_append hbefore, ← List.append_assoc]
    exact .more blank_nil ht hafter hsign hs

theorem IsSum.trimEnd (h : IsSum symbols here negative s values) :
    IsSum symbols here negative (trimEnd s) values := by
  induction h with
  | @last negative before t after v hbefore ht hafter =>
    obtain ⟨-, htight, hsome⟩ := ht.uncut
    have hend : ∀ c ∈ (before ++ t).getLast?, isBlank c = false := by
      rw [List.getLast?_append, List.getLast?_eq_some_getLast hsome, Option.some_or,
        ← List.getLast?_eq_some_getLast hsome]
      exact htight.2
    rw [hafter.trimEnd_append, trimEnd_of_getLast? hend, ← List.append_nil (before ++ t)]
    exact .last hbefore ht blank_nil
  | more hbefore ht hafter hsign hs ih =>
    rw [trimEnd_append_cons (isBlank_of_isSign hsign)]
    exact .more hbefore ht hafter hsign ih

theorem IsExpression.trim (h : IsExpression symbols here negative signs s values) :
    IsExpression symbols here negative signs (trim s) values := by
  have hend {negative : Bool} {signs : Nat} {s : List Char} {values : List Int}
      (h : IsExpression symbols here negative signs s values) :
      IsExpression symbols here negative signs (trimEnd s) values := by
    induction h with
    | terms h => exact .terms h.trimEnd
    | sign hbefore hsign h ih =>
      rw [trimEnd_append_cons (isBlank_of_isSign hsign)]
      exact .sign hbefore hsign ih
  apply hend
  cases h with
  | terms h => exact .terms h.trimStart
  | @sign _ signs before s sign values hbefore hsign h =>
    have hfirst : Text.trimStart (sign :: s) = sign :: s :=
      trimStart_of_head? fun c hc => Option.some.inj hc ▸ isBlank_of_isSign hsign
    rw [hbefore.trimStart_append, hfirst]
    exact .sign blank_nil hsign h

/-- Blanks around an expression do not matter. -/
theorem isExpression_trim_iff : IsExpression symbols here negative signs (trim text) values ↔
    IsExpression symbols here negative signs text values := by
  constructor
  · intro h
    obtain ⟨before, after, hbefore, hafter, heq⟩ := exists_blanks_trim text
    rw [heq]
    exact (h.blank_append hbefore).append_blank hafter
  · exact IsExpression.trim

/-! ## Cutting at the signs -/

/-- A text that is cut at the signs outside quotes. -/
inductive Cut : List Char → Prop
  | last {s : List Char} (hs : Uncut s) : Cut s
  | more {s rest : List Char} {sign : Char} (hs : Uncut s) (hsign : IsSign sign) (h : Cut rest) :
    Cut (s ++ sign :: rest)

/-- Every text in which all quotes are closed can be cut. -/
theorem cut_of_quoteBehind (h : quoteBehind none text = none) : Cut text := by
  -- the first piece may begin within a quote
  have hfrom : ∀ quote text, quoteBehind quote text = none →
      ∃ s, (Outside (¬IsSign ·) quote s ∧ quoteBehind quote s = none) ∧
        (text = s ∨ ∃ sign rest, text = s ++ sign :: rest ∧ IsSign sign ∧ Cut rest) := by
    intro quote text
    induction text generalizing quote with
    | nil => exact fun h => ⟨[], ⟨outside_nil, h⟩, .inl rfl⟩
    | cons c text ih =>
      intro h
      by_cases hcut : quote = none ∧ IsSign c
      · obtain ⟨rfl, hsign⟩ := hcut
        have hquote : quoteAfter none c = none := by
          rcases hsign with rfl | rfl <;> decide
        rw [quoteBehind_cons, hquote] at h
        obtain ⟨s, ⟨houtside, hclosed⟩, hparts⟩ := ih none h
        refine ⟨[], ⟨outside_nil, rfl⟩, .inr ⟨c, text, rfl, hsign, ?_⟩⟩
        rcases hparts with rfl | ⟨sign, rest, rfl, hnext, hrest⟩
        · exact .last ⟨houtside, hclosed⟩
        · exact .more ⟨houtside, hclosed⟩ hnext hrest
      · obtain ⟨s, ⟨houtside, hclosed⟩, hparts⟩ := ih (quoteAfter quote c) h
        refine ⟨c :: s, ⟨⟨fun hquote hsign => hcut ⟨hquote, hsign⟩, houtside⟩, hclosed⟩, ?_⟩
        rcases hparts with rfl | ⟨sign, rest, rfl, hnext, hrest⟩
        · exact .inl rfl
        · exact .inr ⟨sign, rest, rfl, hnext, hrest⟩
  obtain ⟨s, ⟨houtside, hclosed⟩, hparts⟩ := hfrom none text h
  rcases hparts with rfl | ⟨sign, rest, rfl, hnext, hrest⟩
  · exact .last ⟨houtside, hclosed⟩
  · exact .more ⟨houtside, hclosed⟩ hnext hrest

/-- A text with an open quote at its end is not cut into terms. -/
theorem closed_of_splitTermsFrom {whole current : List Char} {quote : Option Char}
    {done terms : List SignedText}
    (h : splitTermsFrom whole quote negative current done s = .ok terms) :
    quoteBehind quote s = none := by
  induction s generalizing quote negative current done with
  | nil =>
    rw [splitTermsFrom] at h
    split at h
    case isTrue => cases h
    case isFalse hnone => simpa using hnone
  | cons c s ih =>
    rw [splitTermsFrom] at h
    split at h
    case isFalse => exact ih h
    case isTrue hcut =>
      have hquote : quoteAfter quote c = none := by
        rw [Option.isNone_iff_eq_none.mp hcut.1]
        rcases hcut.2 with rfl | rfl <;> decide
      rw [quoteBehind_cons, hquote]
      split at h
      · split at h
        · exact ih h
        · cases h
      · exact ih h

theorem splitTermsFrom_last (h : Uncut s) (whole : List Char) (negative : Bool)
    (done : List SignedText) :
    splitTermsFrom whole none negative [] done s = .ok (done.reverse ++ [⟨negative, s⟩]) := by
  have hsplit := splitTermsFrom_append h.outside whole negative [] [] done
  rw [List.append_nil, List.append_nil, h.closed] at hsplit
  rw [hsplit, splitTermsFrom, List.reverse_reverse, List.reverse_cons]
  rfl

theorem splitTermsFrom_more (h : Uncut s) (hsome : ¬Blank s) (hsign : IsSign sign)
    (whole rest : List Char) (negative : Bool) (done : List SignedText) :
    splitTermsFrom whole none negative [] done (s ++ sign :: rest) =
      splitTermsFrom whole none (sign = '-') [] (⟨negative, s⟩ :: done) rest := by
  have htrim : ¬(trim s.reverse).isEmpty = true := by
    rw [List.isEmpty_iff, trim_eq_nil_iff_blank]
    exact fun hblank => hsome (List.reverse_reverse s ▸ hblank.reverse)
  rw [splitTermsFrom_append h.outside, h.closed, List.append_nil, splitTermsFrom,
    if_pos ⟨rfl, hsign⟩, if_neg htrim, List.reverse_reverse]

theorem splitTermsFrom_blank (h : Blank s) (hsign : IsSign sign) (whole rest : List Char)
    (negative : Bool) (done : List SignedText) :
    splitTermsFrom whole none negative [] done (s ++ sign :: rest) =
      if done.isEmpty then splitTermsFrom whole none (sign = '-') [] [] rest
      else .error (.malformedNumber (String.ofList whole)) := by
  have htrim : (trim s.reverse).isEmpty = true := by
    rw [List.isEmpty_iff, trim_eq_nil_iff_blank]
    exact h.reverse
  have huncut := uncut_of_blank h
  rw [splitTermsFrom_append huncut.outside, huncut.closed, List.append_nil, splitTermsFrom,
    if_pos ⟨rfl, hsign⟩, if_pos htrim]
  cases done <;> rfl

/-! ## Terms that are cut out -/

/-- A text that was cut out adds a value to the sum. -/
def Adds (symbols : Symbols) (here : UInt16) (t : SignedText) (x : Int) : Prop :=
  Uncut t.text ∧ ∃ v, IsTerm symbols here (trim t.text) v ∧ x = signed t.negative v

theorem uncut_of_adds {terms : List SignedText}
    (h : List.Forall₂ (Adds symbols here) terms values) : ∀ t ∈ terms, Uncut t.text := by
  induction h with
  | nil => exact fun t ht => nomatch ht
  | cons ht hrest ih => exact List.forall_mem_cons.mpr ⟨ht.1, ih⟩

/-- What is cut into terms is an expression with their values. There are signs in front only if
nothing was cut off before. -/
theorem isExpression_of_splitTermsFrom (symbols : Symbols) (here : UInt16) {whole : List Char}
    {done terms : List SignedText} (hs : Cut s)
    (h : splitTermsFrom whole none negative [] done s = .ok terms) :
    ∃ more, terms = done.reverse ++ more ∧ (∀ t ∈ more, Uncut t.text) ∧
      ∀ values, List.Forall₂ (Adds symbols here) more values →
        ∃ signs, IsExpression symbols here negative signs s values ∧ (done ≠ [] → signs = 0) := by
  induction hs generalizing negative done with
  | @last s hs =>
    rw [splitTermsFrom_last hs, Except.ok.injEq] at h
    refine ⟨[⟨negative, s⟩], h.symm, List.forall_mem_singleton.mpr hs, ?_⟩
    rintro values (_ | ⟨⟨-, v, hv, rfl⟩, ⟨⟩⟩)
    obtain ⟨before, after, hbefore, hafter, heq⟩ := exists_blanks_trim s
    refine ⟨0, .terms ?_, fun _ => rfl⟩
    rw [heq]
    exact .last hbefore hv hafter
  | @more s rest sign hs hsign hrest ih =>
    by_cases hblank : Blank s
    · rw [splitTermsFrom_blank hblank hsign] at h
      split at h
      case isFalse => cases h
      case isTrue hdone =>
        obtain rfl := List.isEmpty_iff.mp hdone
        obtain ⟨more, hmore, huncut, hvalues⟩ := ih h
        refine ⟨more, hmore, huncut, fun values hadds => ?_⟩
        obtain ⟨signs, hexpression, -⟩ := hvalues values hadds
        exact ⟨signs + 1, .sign hblank hsign hexpression, fun hne => absurd rfl hne⟩
    · rw [splitTermsFrom_more hs hblank hsign] at h
      obtain ⟨more, hmore, huncut, hvalues⟩ := ih h
      rw [List.reverse_cons, List.append_assoc, List.singleton_append] at hmore
      refine ⟨⟨negative, s⟩ :: more, hmore, List.forall_mem_cons.mpr ⟨hs, huncut⟩, ?_⟩
      rintro values (_ | ⟨⟨-, v, hv, rfl⟩, hadds⟩)
      obtain ⟨signs, hexpression, hzero⟩ := hvalues _ hadds
      obtain rfl := hzero (List.cons_ne_nil _ _)
      obtain ⟨before, after, hbefore, hafter, heq⟩ := exists_blanks_trim s
      cases hexpression with
      | terms hsum =>
        refine ⟨0, .terms ?_, fun _ => rfl⟩
        rw [heq]
        exact .more hbefore hv hafter hsign hsum

theorem adds_of_isTerm (hbefore : Blank before) (ht : IsTerm symbols here t v)
    (hafter : Blank after) (negative : Bool) :
    Adds symbols here ⟨negative, before ++ t ++ after⟩ (signed negative v) := by
  obtain ⟨huncut, htight, -⟩ := ht.uncut
  refine ⟨((uncut_of_blank hbefore).append huncut).append (uncut_of_blank hafter), v, ?_, rfl⟩
  rw [hbefore.trim_append hafter htight]
  exact ht

theorem IsSum.splitTermsFrom (h : IsSum symbols here negative s values) (whole : List Char)
    (done : List SignedText) :
    ∃ more, splitTermsFrom whole none negative [] done s = .ok (done.reverse ++ more) ∧
      List.Forall₂ (Adds symbols here) more values := by
  induction h generalizing done with
  | @last negative before t after v hbefore ht hafter =>
    have hadds := adds_of_isTerm hbefore ht hafter negative
    exact ⟨[_], splitTermsFrom_last hadds.1 whole negative done, .cons hadds .nil⟩
  | @more negative before t after s sign v values hbefore ht hafter hsign hs ih =>
    have hadds := adds_of_isTerm hbefore ht hafter negative
    have hsome : ¬Blank (before ++ t ++ after) := by
      rw [← trim_eq_nil_iff_blank, hbefore.trim_append hafter ht.uncut.2.1]
      exact ht.uncut.2.2
    obtain ⟨more, hsplit, hvalues⟩ := ih (⟨negative, before ++ t ++ after⟩ :: done)
    rw [List.reverse_cons, List.append_assoc done.reverse, List.singleton_append] at hsplit
    exact ⟨_, (splitTermsFrom_more hadds.1 hsome hsign whole s negative done).trans hsplit,
      .cons hadds hvalues⟩

theorem IsExpression.splitTermsFrom (h : IsExpression symbols here negative signs s values)
    (whole : List Char) :
    ∃ more, splitTermsFrom whole none negative [] [] s = .ok more ∧
      List.Forall₂ (Adds symbols here) more values := by
  induction h with
  | terms h => exact h.splitTermsFrom whole []
  | sign hbefore hsign h ih =>
    obtain ⟨more, hsplit, hvalues⟩ := ih
    exact ⟨more, (splitTermsFrom_blank hbefore hsign whole _ _ []).trans hsplit, hvalues⟩

/-! ## The sum -/

/-- Terms are added up exactly if each of them has a value and all partial sums fit. -/
theorem sumTerms_eq_ok_iff {whole : List Char} {total : Int} {terms : List SignedText}
    (hterms : ∀ t ∈ terms, Uncut t.text) (htotal : FitsSigned64 total) :
    sumTerms symbols here whole total terms = .ok v ↔
      ∃ values, List.Forall₂ (Adds symbols here) terms values ∧
        (∀ k, FitsSigned64 (total + (values.take k).sum)) ∧ v = total + values.sum := by
  induction terms generalizing total with
  | nil =>
    rw [sumTerms, Except.ok.injEq]
    constructor
    · rintro rfl
      exact ⟨[], .nil, fun k => by simpa using htotal, by simp⟩
    · rintro ⟨values, ⟨⟩, -, rfl⟩
      simp
  | cons t rest ih =>
    obtain ⟨ht, hrest⟩ := List.forall_mem_cons.mp hterms
    have hstep (u : Int) : (if t.negative then total - u else total + u) =
        total + signed t.negative u := by
      rw [signed]
      split <;> omega
    constructor
    · intro h
      rw [sumTerms, bind_eq_ok] at h
      obtain ⟨term, hread, h⟩ := h
      rw [bind_eq_ok] at h
      obtain ⟨u, hvalue, h⟩ := h
      dsimp only at h
      rw [hstep] at h
      split at h
      case isFalse => cases h
      case isTrue hfits =>
        obtain ⟨values, hvalues, hall, rfl⟩ := (ih hrest hfits).mp h
        have hterm := (value_read_iff ht.trim (tight_trim t.text)).mp ⟨term, hread, hvalue⟩
        refine ⟨signed t.negative u :: values, .cons ⟨ht, u, hterm, rfl⟩ hvalues, ?_, ?_⟩
        · intro k
          cases k with
          | zero => simpa using htotal
          | succ k =>
            rw [List.take_succ_cons, List.sum_cons, ← Int.add_assoc]
            exact hall k
        · rw [List.sum_cons, Int.add_assoc]
    · rintro ⟨values, hadds, hall, rfl⟩
      cases hadds with
      | @cons _ x _ values hx hvalues =>
        obtain ⟨-, u, hu, rfl⟩ := hx
        obtain ⟨term, hread, hvalue⟩ := (value_read_iff ht.trim (tight_trim t.text)).mpr hu
        have hfits : FitsSigned64 (total + signed t.negative u) := by
          have hone := hall 1
          rwa [List.take_succ_cons, List.take_zero, List.sum_singleton] at hone
        have hlater : ∀ k, FitsSigned64 (total + signed t.negative u + (values.take k).sum) := by
          intro k
          have hnext := hall (k + 1)
          rwa [List.take_succ_cons, List.sum_cons, ← Int.add_assoc] at hnext
        rw [sumTerms, bind_eq_ok]
        refine ⟨term, hread, bind_eq_ok.mpr ⟨u, hvalue, ?_⟩⟩
        rw [hstep, if_pos hfits]
        refine (ih hrest hfits).mpr ⟨values, hvalues, hlater, ?_⟩
        rw [List.sum_cons, Int.add_assoc]

/-! ## Evaluation -/

theorem evaluate_eq_ok_iff : evaluate symbols here text = .ok v ↔
    ∃ signs, Denotes symbols here signs text v := by
  constructor
  · intro h
    rw [evaluate] at h
    split at h
    case isTrue => cases h
    case isFalse hsome =>
      split at h
      case h_1 => cases h
      case h_2 terms hterms =>
        have hcut := cut_of_quoteBehind (closed_of_splitTermsFrom hterms)
        obtain ⟨more, rfl, huncut, hvalues⟩ :=
          isExpression_of_splitTermsFrom symbols here hcut hterms
        obtain ⟨values, hadds, hfits, rfl⟩ :=
          (sumTerms_eq_ok_iff huncut (by decide)).mp h
        obtain ⟨signs, hexpression, -⟩ := hvalues values hadds
        refine ⟨signs, values, isExpression_trim_iff.mp hexpression, ?_, Int.zero_add _⟩
        exact fun k => Int.zero_add (values.take k).sum ▸ hfits k
  · rintro ⟨signs, values, hexpression, hfits, rfl⟩
    have htrimmed := hexpression.trim
    obtain ⟨terms, hsplit, hadds⟩ := htrimmed.splitTermsFrom (trim text)
    rw [evaluate, if_neg (by rw [List.isEmpty_iff]; exact htrimmed.ne_nil), splitTerms, hsplit]
    have hsums : ∀ k, FitsSigned64 (0 + (values.take k).sum) :=
      fun k => (Int.zero_add (values.take k).sum).symm ▸ hfits k
    exact (sumTerms_eq_ok_iff (uncut_of_adds hadds) (by decide)).mpr
      ⟨values, hadds, hsums, (Int.zero_add _).symm⟩

/-- An operand has a value exactly if it is an expression, and the documented grammar is that of
the operands with at most one sign in front. -/
theorem evaluate_denotes (symbols : Symbols) (here : UInt16) (text : List Char) :
    (∀ v, evaluate symbols here text = .ok v ↔ ∃ signs, Denotes symbols here signs text v) ∧
    (∀ v, (∃ signs ≤ 1, Denotes symbols here signs text v) ↔
      evaluate symbols here text = .ok v ∧ leadingSigns text ≤ 1) ∧
    ((∃ fault, evaluate symbols here text = .error fault) ↔
      ∀ signs v, ¬Denotes symbols here signs text v) := by
  refine ⟨fun v => evaluate_eq_ok_iff, fun v => ?_, ?_⟩
  · rw [evaluate_eq_ok_iff]
    constructor
    · rintro ⟨signs, hsigns, hdenotes⟩
      exact ⟨⟨signs, hdenotes⟩, hdenotes.leadingSigns ▸ hsigns⟩
    · rintro ⟨⟨signs, hdenotes⟩, hsigns⟩
      exact ⟨signs, hdenotes.leadingSigns ▸ hsigns, hdenotes⟩
  · constructor
    · rintro ⟨fault, hfault⟩ signs v hdenotes
      rw [evaluate_eq_ok_iff.mpr ⟨signs, hdenotes⟩] at hfault
      cases hfault
    · intro hnone
      cases hvalue : evaluate symbols here text with
      | error fault => exact ⟨fault, rfl⟩
      | ok v =>
        obtain ⟨signs, hdenotes⟩ := evaluate_eq_ok_iff.mp hvalue
        exact absurd hdenotes (hnone signs v)

/-- Two signs in front are one too many for the documented grammar. -/
theorem evaluate_two_signs :
    evaluate .empty 0 "--5".toList = .ok (-5) ∧
      ¬∃ signs ≤ 1, ∃ v, Denotes .empty 0 signs "--5".toList v := by
  refine ⟨by decide, ?_⟩
  rintro ⟨signs, hsigns, v, hdenotes⟩
  have htwo : leadingSigns "--5".toList = 2 := by decide
  rw [← hdenotes.leadingSigns, htwo] at hsigns
  omega

end Cpm80.Assembler
