import Cpm80.Proofs.OperandGrammar

/-!
# Letters in either case

Two texts are spelled alike if they are the same but for the case of letters outside quotes. No mark
of a line is a letter, so everything that is found by marks, blanks and quotes is found at the
same places in both. What is between the marks is compared in upper case, or is the same.
An operand therefore has the same value in all its spellings.
-/
namespace Cpm80

open Text

namespace Text

variable {c d mark : Char} {s t : List Char}

/-- A property of characters that does not depend on the case of letters. -/
def CaseBlind (p : Char → Prop) : Prop :=
  ∀ c d, c.toUpper = d.toUpper → p c → p d

theorem eq_iff_of_toUpper_eq (hmark : ¬mark.isAlpha) (h : c.toUpper = d.toUpper) :
    c = mark ↔ d = mark := by
  rw [← toUpper_eq_iff hmark (c := c), ← toUpper_eq_iff hmark (c := d), h]

theorem caseBlind_ne (hmark : ¬mark.isAlpha) : CaseBlind (· ≠ mark) :=
  fun _ _ h hc hd => hc ((eq_iff_of_toUpper_eq hmark h).mpr hd)

theorem isBlank_of_toUpper_eq (h : c.toUpper = d.toUpper) : isBlank c = isBlank d := by
  rw [← isBlank_toUpper c, h, isBlank_toUpper]

theorem isQuote_toUpper (c : Char) : isQuote c.toUpper = isQuote c := by
  have hmarks : (c.toUpper = '\'' ↔ c = '\'') ∧ (c.toUpper = '"' ↔ c = '"') :=
    ⟨toUpper_eq_iff (by decide), toUpper_eq_iff (by decide)⟩
  rw [isQuote, isQuote, Bool.eq_iff_iff]
  simp only [Bool.or_eq_true, decide_eq_true_eq, hmarks]

theorem isQuote_of_toUpper_eq (h : c.toUpper = d.toUpper) : isQuote c = isQuote d := by
  rw [← isQuote_toUpper c, h, isQuote_toUpper]

theorem isDigit_of_toUpper_eq (h : c.toUpper = d.toUpper) : c.isDigit = d.isDigit := by
  have hnat := congrArg Char.toNat h
  rw [toNat_toUpper, toNat_toUpper] at hnat
  have hdigit (c : Char) : c.isDigit = true ↔ 48 ≤ c.toNat ∧ c.toNat ≤ 57 := by
    rw [Char.isDigit, Bool.and_eq_true, decide_eq_true_eq, decide_eq_true_eq]
    rfl
  rw [Bool.eq_iff_iff, hdigit, hdigit]
  grind

theorem forall_of_upper_eq {p : Char → Prop} (hp : CaseBlind p) (h : upper s = upper t)
    (hs : ∀ c ∈ s, p c) : ∀ c ∈ t, p c := by
  intro d hd
  have hmem : d.toUpper ∈ upper s := h ▸ List.mem_map_of_mem hd
  obtain ⟨c, hc, heq⟩ := List.mem_map.mp hmem
  exact hp c d heq (hs c hc)

theorem Blank.of_upper_eq (h : upper s = upper t) (hs : Blank s) : Blank t :=
  forall_of_upper_eq (fun _ _ hcd hc => isBlank_of_toUpper_eq hcd ▸ hc) h hs

theorem Unbroken.of_upper_eq (h : Text.upper s = Text.upper t) (hs : Unbroken s) : Unbroken t :=
  forall_of_upper_eq (fun _ _ hcd hc => isBlank_of_toUpper_eq hcd ▸ hc) h hs

theorem Tight.of_upper_eq (h : Text.upper s = Text.upper t) (hs : Tight s) : Tight t := by
  have hends : s.head?.map Char.toUpper = t.head?.map Char.toUpper ∧
      s.getLast?.map Char.toUpper = t.getLast?.map Char.toUpper := by
    rw [← List.head?_map, ← List.head?_map, ← List.getLast?_map, ← List.getLast?_map]
    exact ⟨congrArg List.head? h, congrArg List.getLast? h⟩
  have hend {x y : Option Char} (hxy : x.map Char.toUpper = y.map Char.toUpper)
      (hx : ∀ c ∈ x, isBlank c = false) : ∀ d ∈ y, isBlank d = false := by
    rintro d rfl
    obtain ⟨c, rfl, hcd⟩ := Option.map_eq_some_iff.mp hxy
    rw [← isBlank_of_toUpper_eq hcd]
    exact hx c rfl
  exact ⟨hend hends.1 hs.1, hend hends.2 hs.2⟩

theorem eq_nil_iff_of_upper_eq (h : upper s = upper t) : s = [] ↔ t = [] := by
  rw [← List.length_eq_zero_iff, ← List.length_eq_zero_iff, ← length_upper s, h, length_upper]

end Text

namespace Assembler

/-- The same text, but for the case of letters outside quotes. -/
inductive Respelled : Option Char → List Char → List Char → Prop
  | nil {quote : Option Char} : Respelled quote [] []
  | outside {c d : Char} {s t : List Char} (hcd : c.toUpper = d.toUpper)
    (h : Respelled (quoteAfter none c) s t) : Respelled none (c :: s) (d :: t)
  | inside {q c : Char} {s t : List Char} (h : Respelled (quoteAfter (some q) c) s t) :
    Respelled (some q) (c :: s) (c :: t)

variable {quote : Option Char} {q c d mark : Char} {s t u : List Char} {p : Char → Prop}

theorem quoteAfter_of_toUpper_eq (h : c.toUpper = d.toUpper) :
    quoteAfter none c = quoteAfter none d := by
  rw [quoteAfter, quoteAfter, isQuote_of_toUpper_eq h]
  split
  case isTrue hquote =>
    have hsame : c = d := by
      rw [isQuote, Bool.or_eq_true, decide_eq_true_eq, decide_eq_true_eq] at hquote
      rcases hquote with rfl | rfl
      · exact (eq_iff_of_toUpper_eq (by decide) h).mpr rfl
      · exact (eq_iff_of_toUpper_eq (by decide) h).mpr rfl
    rw [hsame]
  case isFalse => rfl

namespace Respelled

theorem refl (quote : Option Char) (s : List Char) : Respelled quote s s := by
  induction s generalizing quote with
  | nil => exact .nil
  | cons c s ih =>
    cases quote with
    | none => exact .outside rfl (ih _)
    | some q => exact .inside (ih _)

theorem outside_iff :
    Respelled none (c :: s) (d :: t) ↔
      c.toUpper = d.toUpper ∧ Respelled (quoteAfter none c) s t := by
  constructor
  · rintro (_ | ⟨hcd, h⟩ | _)
    exact ⟨hcd, h⟩
  · rintro ⟨hcd, h⟩
    exact .outside hcd h

theorem inside_iff :
    Respelled (some q) (c :: s) (d :: t) ↔ c = d ∧ Respelled (quoteAfter (some q) c) s t := by
  constructor
  · rintro (_ | _ | h)
    exact ⟨rfl, h⟩
  · rintro ⟨rfl, h⟩
    exact .inside h

instance decidable : (quote : Option Char) → (s t : List Char) → Decidable (Respelled quote s t)
  | _, [], [] => .isTrue .nil
  | _, [], _ :: _ => .isFalse nofun
  | _, _ :: _, [] => .isFalse nofun
  | none, c :: s, _ :: t =>
    have := decidable (quoteAfter none c) s t
    decidable_of_iff _ outside_iff.symm
  | some q, c :: s, _ :: t =>
    have := decidable (quoteAfter (some q) c) s t
    decidable_of_iff _ inside_iff.symm

theorem symm (h : Respelled quote s t) : Respelled quote t s := by
  induction h with
  | nil => exact .nil
  | outside hcd h ih => exact .outside hcd.symm (quoteAfter_of_toUpper_eq hcd ▸ ih)
  | inside h ih => exact .inside ih

theorem upper_eq (h : Respelled quote s t) : upper s = upper t := by
  induction h with
  | nil => rfl
  | outside hcd h ih => rw [upper, upper, List.map_cons, List.map_cons, hcd, ← upper, ih, ← upper]
  | inside h ih => rw [upper, upper, List.map_cons, List.map_cons, ← upper, ih, ← upper]

theorem quoteBehind_eq (h : Respelled quote s t) : quoteBehind quote s = quoteBehind quote t := by
  induction h with
  | nil => rfl
  | outside hcd h ih => rw [quoteBehind_cons, quoteBehind_cons, ih, quoteAfter_of_toUpper_eq hcd]
  | inside h ih => rw [quoteBehind_cons, quoteBehind_cons, ih]

theorem append {s' t' : List Char} (h : Respelled quote s t)
    (h' : Respelled (quoteBehind quote s) s' t') : Respelled quote (s ++ s') (t ++ t') := by
  induction h with
  | nil => exact h'
  | outside hcd h ih => exact .outside hcd (ih h')
  | inside h ih => exact .inside (ih h')

/-- A text is spelled piece by piece. -/
theorem exists_append (h : Respelled quote (s ++ u) t) :
    ∃ front back, t = front ++ back ∧ Respelled quote s front ∧
      Respelled (quoteBehind quote s) u back := by
  induction s generalizing quote t with
  | nil => exact ⟨[], t, rfl, .nil, h⟩
  | cons c s ih =>
    rw [List.cons_append] at h
    cases h with
    | outside hcd h =>
      obtain ⟨front, back, rfl, hfront, hback⟩ := ih h
      exact ⟨_ :: front, back, rfl, .outside hcd hfront, hback⟩
    | inside h =>
      obtain ⟨front, back, rfl, hfront, hback⟩ := ih h
      exact ⟨c :: front, back, rfl, .inside hfront, hback⟩

theorem eq_nil (h : Respelled quote [] t) : t = [] := by
  cases h
  rfl

/-- A mark is spelled in one way. -/
theorem exists_mark (hmark : ¬mark.isAlpha) (h : Respelled quote (mark :: s) t) :
    ∃ back, t = mark :: back ∧ Respelled (quoteAfter quote mark) s back := by
  cases h with
  | @outside _ d _ back hcd h =>
    obtain rfl : d = mark := (eq_iff_of_toUpper_eq hmark hcd).mp rfl
    exact ⟨back, rfl, h⟩
  | @inside _ _ _ back h => exact ⟨back, rfl, h⟩

theorem outside_of (hp : CaseBlind p) (h : Respelled quote s t) (hs : Outside p quote s) :
    Outside p quote t := by
  induction h with
  | nil => trivial
  | outside hcd h ih =>
    obtain ⟨hc, hs⟩ := hs
    exact ⟨fun _ => hp _ _ hcd (hc rfl), quoteAfter_of_toUpper_eq hcd ▸ ih hs⟩
  | inside h ih =>
    obtain ⟨-, hs⟩ := hs
    exact ⟨nofun, ih hs⟩

theorem balanced (hp : CaseBlind p) (h : Respelled none s t) (hs : Balanced p s) :
    Balanced p t :=
  ⟨h.outside_of hp hs.outside, h.quoteBehind_eq ▸ hs.closed⟩

theorem trim (h : Respelled none s t) : Respelled none (trim s) (trim t) := by
  obtain ⟨before, after, hbefore, hafter, hparts⟩ := exists_blanks_trim s
  rw [hparts, List.append_assoc] at h
  obtain ⟨before', rest, rfl, hfront, h⟩ := h.exists_append
  rw [(uncut_of_blank hbefore).closed] at h
  obtain ⟨middle, after', rfl, hmiddle, hback⟩ := h.exists_append
  have htight := (tight_trim s).of_upper_eq hmiddle.upper_eq
  rw [← List.append_assoc, (hbefore.of_upper_eq hfront.upper_eq).trim_append
    (hafter.of_upper_eq hback.upper_eq) htight]
  exact hmiddle

end Respelled

/-! ## Operands -/

theorem caseBlind_not_isSign : CaseBlind (¬IsSign ·) := by
  rintro c d hcd hc (hplus | hminus)
  · exact hc (.inl ((eq_iff_of_toUpper_eq (by decide) hcd).mpr hplus))
  · exact hc (.inr ((eq_iff_of_toUpper_eq (by decide) hcd).mpr hminus))

variable {symbols : Symbols} {here : UInt16} {negative : Bool} {signs : Nat} {sign : Char}
  {v : Int} {values : List Int}

theorem IsName.respelled (hs : IsName s) (h : Respelled none s t) : IsName t where
  uncut := h.balanced caseBlind_not_isSign hs.uncut
  tight := hs.tight.of_upper_eq h.upper_eq
  ne_nil := fun ht => hs.ne_nil ((eq_nil_iff_of_upper_eq h.upper_eq).mpr ht)
  ne_here := by
    rintro rfl
    obtain ⟨back, rfl, hback⟩ := h.symm.exists_mark (by decide)
    cases hback
    exact hs.ne_here rfl
  first := by
    cases h with
    | nil => exact fun d hd => nomatch hd
    | outside hcd h =>
      intro d hd
      obtain rfl := Option.some.inj hd
      rw [← isQuote_of_toUpper_eq hcd, ← isDigit_of_toUpper_eq hcd]
      exact hs.first _ rfl

theorem IsTerm.respelled (hs : IsTerm symbols here s v) (h : Respelled none s t) :
    IsTerm symbols here t v := by
  cases hs with
  | here =>
    obtain ⟨back, rfl, hback⟩ := h.exists_mark (by decide)
    cases hback
    exact .here
  | symbol hname hvalue => exact .symbol (hname.respelled h) (h.upper_eq ▸ hvalue)
  | @character q c hquote hne hbyte =>
    have hmark : ¬q.isAlpha := by
      rw [isQuote, Bool.or_eq_true, decide_eq_true_eq, decide_eq_true_eq] at hquote
      rcases hquote with rfl | rfl <;> decide
    obtain ⟨back, rfl, hback⟩ := h.exists_mark hmark
    rw [quoteAfter_self hquote] at hback
    cases hback with
    | inside hback =>
      rw [quoteAfter, if_neg hne] at hback
      cases hback with
      | inside hback =>
        have hclosed : quoteAfter (some q) q = none := if_pos rfl
        rw [hclosed] at hback
        cases hback
        exact .character hquote hne hbyte
  | number hnumber hfits =>
    have hfirst : ∀ c ∈ s.head?, c.isDigit = true := by
      obtain ⟨first, rest, rfl, hdigit⟩ := hnumber.exists_cons
      exact fun c hc => Option.some.inj hc ▸ hdigit
    have hfirst' : ∀ c ∈ t.head?, c.isDigit = true := by
      cases h with
      | nil => exact hfirst
      | outside hcd h =>
        intro d hd
        obtain rfl := Option.some.inj hd
        rw [← isDigit_of_toUpper_eq hcd]
        exact hfirst _ rfl
    have hread := (number?_eq_some_iff hfirst).mpr ⟨hnumber, hfits⟩
    rw [number?, h.upper_eq, ← number?] at hread
    obtain ⟨hnumber', -⟩ := (number?_eq_some_iff hfirst').mp hread
    exact .number hnumber' hfits

/-- A term with blanks around it, and what follows it, in another spelling. -/
theorem Respelled.exists_term {before after : List Char} (hbefore : Blank before)
    (ht : IsTerm symbols here u v) (hafter : Blank after)
    (h : Respelled none (before ++ u ++ after ++ s) t) :
    ∃ before' u' after' s', t = before' ++ u' ++ after' ++ s' ∧ Blank before' ∧
      IsTerm symbols here u' v ∧ Blank after' ∧ Respelled none s s' := by
  obtain ⟨front, s', rfl, hfront, hback⟩ := h.exists_append
  obtain ⟨front, after', rfl, hfront, hend⟩ := hfront.exists_append
  obtain ⟨before', u', rfl, hstart, hterm⟩ := hfront.exists_append
  rw [(uncut_of_blank hbefore).closed] at hterm
  rw [(((uncut_of_blank hbefore).append ht.uncut.1).append (uncut_of_blank hafter)).closed] at hback
  exact ⟨before', u', after', s', rfl, hbefore.of_upper_eq hstart.upper_eq, ht.respelled hterm,
    hafter.of_upper_eq hend.upper_eq, hback⟩

theorem Respelled.exists_sign (hsign : IsSign sign) (h : Respelled none (sign :: s) t) :
    ∃ back, t = sign :: back ∧ Respelled none s back := by
  have hplain : ¬sign.isAlpha ∧ quoteAfter none sign = none := by
    rcases hsign with rfl | rfl <;> decide
  obtain ⟨back, rfl, hback⟩ := h.exists_mark hplain.1
  exact ⟨back, rfl, hplain.2 ▸ hback⟩

theorem IsSum.respelled (hs : IsSum symbols here negative s values) (h : Respelled none s t) :
    IsSum symbols here negative t values := by
  induction hs generalizing t with
  | last hbefore ht hafter =>
    rw [← List.append_nil (_ ++ _ ++ _)] at h
    obtain ⟨before, u, after, s, rfl, hbefore, hu, hafter, hrest⟩ := h.exists_term hbefore ht hafter
    cases hrest
    rw [List.append_nil]
    exact .last hbefore hu hafter
  | more hbefore ht hafter hsign hs ih =>
    obtain ⟨before, u, after, s, rfl, hbefore, hu, hafter, hrest⟩ := h.exists_term hbefore ht hafter
    obtain ⟨back, rfl, hback⟩ := hrest.exists_sign hsign
    exact .more hbefore hu hafter hsign (ih hback)

theorem IsExpression.respelled (hs : IsExpression symbols here negative signs s values)
    (h : Respelled none s t) : IsExpression symbols here negative signs t values := by
  induction hs generalizing t with
  | terms hs => exact .terms (hs.respelled h)
  | sign hbefore hsign hs ih =>
    obtain ⟨before, rest, rfl, hfront, hrest⟩ := h.exists_append
    rw [(uncut_of_blank hbefore).closed] at hrest
    obtain ⟨back, rfl, hback⟩ := hrest.exists_sign hsign
    exact .sign (hbefore.of_upper_eq hfront.upper_eq) hsign (ih hback)

/-- An operand has the same value in all spellings, or none in any. -/
theorem Respelled.evaluate_eq_ok_iff (h : Respelled none s t) :
    evaluate symbols here s = .ok v ↔ evaluate symbols here t = .ok v := by
  rw [Assembler.evaluate_eq_ok_iff, Assembler.evaluate_eq_ok_iff]
  constructor
  · rintro ⟨signs, values, hs, hv⟩
    exact ⟨signs, values, hs.respelled h, hv⟩
  · rintro ⟨signs, values, ht, hv⟩
    exact ⟨signs, values, ht.respelled h.symm, hv⟩

end Assembler

end Cpm80
