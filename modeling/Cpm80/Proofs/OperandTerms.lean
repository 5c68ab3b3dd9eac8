import Cpm80.Proofs.Blanks
import Cpm80.Proofs.Checked.Places
import Cpm80.Proofs.Numerals
import Cpm80.Proofs.Quotes

/-!
# Terms of operands

Which texts are terms of an expression, and what their values are: a dollar sign, a name, a quoted
character or a number. A text between two signs of an expression has a value exactly if it is such
a term, and has that value then.
-/
namespace Cpm80

open Text

namespace Utf8

theorem encode_eq_singleton_iff {s : List Char} {b : UInt8} :
    encode s = [b] ↔ ∃ c, s = [c] ∧ c.toNat < 128 ∧ b = UInt8.ofNat c.toNat := by
  constructor
  · intro h
    have hsize : size s = 1 := by rw [size, h, List.length_singleton]
    cases s with
    | nil => cases hsize
    | cons c s =>
      rw [size_cons] at hsize
      have hc := c.utf8Size_pos
      have hs := length_le_size s
      obtain rfl : s = [] := List.eq_nil_of_length_eq_zero (by omega)
      have hone : c.utf8Size = 1 := by
        rw [size_nil] at hsize
        exact hsize
      have hascii : c.toNat < 128 := Nat.lt_succ_of_le (Char.utf8Size_eq_one_iff.mp hone)
      rw [encode_cons, utf8EncodeChar_of_lt hascii] at h
      exact ⟨c, rfl, hascii, (List.cons.inj h).1.symm⟩
  · rintro ⟨c, rfl, hascii, rfl⟩
    rw [encode_cons, utf8EncodeChar_of_lt hascii]
    rfl

end Utf8

namespace Assembler

variable {symbols : Symbols} {here : UInt16} {c : Char} {s t : List Char} {v : Int}

/-- A text that stands between two signs of an expression. -/
abbrev Uncut : List Char → Prop :=
  Balanced (¬IsSign ·)

/-- A text that could only be the name of a symbol. Every identifier is one. -/
structure IsName (s : List Char) : Prop where
  uncut : Uncut s
  tight : Tight s
  ne_nil : s ≠ []
  ne_here : s ≠ ['$']
  first : ∀ c ∈ s.head?, isQuote c = false ∧ c.isDigit = false

/-- The terms of expressions at an address, with their values. -/
inductive IsTerm (symbols : Symbols) (here : UInt16) : List Char → Int → Prop
  | here : IsTerm symbols here ['$'] here.toNat
  | symbol {name : List Char} {value : UInt16} (hname : IsName name)
    (hvalue : symbols.get? (String.ofList (upper name)) = some value) :
    IsTerm symbols here name value.toNat
  | character {q c : Char} (hquote : isQuote q = true) (hne : c ≠ q) (hbyte : c.toNat < 128) :
    IsTerm symbols here [q, c, q] c.toNat
  | number {digits : List Char} {n : Nat} (h : IsNumber digits n) (hfits : n ≤ 0x7FFFFFFFFFFFFFFF) :
    IsTerm symbols here digits n

theorem isBlank_of_isSign (h : IsSign c) : isBlank c = false := by
  rcases h with rfl | rfl <;> decide

theorem isQuote_of_isBlank (h : isBlank c = true) : isQuote c = false := by
  have hquote : ∀ q, isBlank q = false → c ≠ q := by
    rintro q hq rfl
    rw [h] at hq
    cases hq
  rw [isQuote, Bool.or_eq_false_iff, decide_eq_false_iff_not, decide_eq_false_iff_not]
  exact ⟨hquote _ (by decide), hquote _ (by decide)⟩

theorem uncut_of_blank (h : Blank s) : Uncut s := by
  refine balanced_of_forall fun c hc => ⟨fun hsign => ?_, isQuote_of_isBlank (h c hc)⟩
  have hblank := h c hc
  rw [isBlank_of_isSign hsign] at hblank
  cases hblank

theorem Uncut.trim (h : Uncut s) : Uncut (trim s) := by
  obtain ⟨before, after, hbefore, hafter, heq⟩ := exists_blanks_trim s
  have hfront := uncut_of_blank hbefore
  rw [heq] at h
  have houtside := (outside_append.mp (outside_append.mp h.outside).1).2
  have hclosed := h.closed
  rw [hfront.closed] at houtside
  rw [quoteBehind_append, quoteBehind_append, hfront.closed] at hclosed
  refine ⟨houtside, ?_⟩
  cases hquote : quoteBehind none (Text.trim s) with
  | none => rfl
  | some q =>
    have hq : isQuote q = true := isQuote_of_quoteBehind (by simp) q hquote
    rw [hquote, quoteBehind_some_of_forall hq fun c hc => isQuote_of_isBlank (hafter c hc)]
      at hclosed
    cases hclosed

/-- Letters and digits and the marks of an identifier are no sign, no quote and no blank. -/
theorem plain_of_isSymbolChar (h : isSymbolChar c = true) :
    ¬IsSign c ∧ isQuote c = false ∧ isBlank c = false := by
  have hrange : (48 ≤ c.toNat ∧ c.toNat ≤ 57) ∨ (63 ≤ c.toNat ∧ c.toNat ≤ 90) ∨ c.toNat = 95 ∨
      (97 ≤ c.toNat ∧ c.toNat ≤ 122) := by
    simp only [isSymbolChar, Char.isAlphanum, Bool.or_eq_true, isAlpha_iff, decide_eq_true_eq] at h
    rcases h with (((hletter | hdigit) | rfl) | rfl) | rfl
    · omega
    · have := Numeral.toNat_of_isDigit hdigit
      omega
    all_goals decide
  have hne : ∀ mark : Char, mark.toNat = 43 ∨ mark.toNat = 45 ∨ mark.toNat = 39 ∨
      mark.toNat = 34 → c ≠ mark := by
    rintro mark hmark rfl
    omega
  refine ⟨?_, ?_, ?_⟩
  · rintro (hplus | hminus)
    · exact hne '+' (by decide) hplus
    · exact hne '-' (by decide) hminus
  · rw [isQuote, Bool.or_eq_false_iff, decide_eq_false_iff_not, decide_eq_false_iff_not]
    exact ⟨hne _ (by decide), hne _ (by decide)⟩
  · rw [Bool.eq_false_iff]
    simp only [isBlank, ne_eq, Bool.or_eq_true, Bool.and_eq_true, decide_eq_true_eq]
    omega

theorem isSymbolChar_of_isIdentifier (h : isIdentifier s = true) :
    ∀ c ∈ s, isSymbolChar c = true := by
  cases s with
  | nil => exact fun c hc => nomatch hc
  | cons first rest =>
    rw [isIdentifier, Bool.and_eq_true, List.all_eq_true] at h
    intro c hc
    rcases List.mem_cons.mp hc with rfl | hc
    · have hstart := h.1
      simp only [isSymbolStart, isSymbolChar, Char.isAlphanum, Bool.or_eq_true] at hstart ⊢
      rcases hstart with ((halpha | hmark) | hmark) | hmark
      · exact .inl (.inl (.inl (.inl halpha)))
      · exact .inl (.inl (.inr hmark))
      · exact .inl (.inr hmark)
      · exact .inr hmark
    · exact h.2 c hc

/-- What a label may be called is a name in an expression. -/
theorem isName_of_isIdentifier (h : isIdentifier s = true) : IsName s := by
  have hplain := fun c hc => plain_of_isSymbolChar (isSymbolChar_of_isIdentifier h c hc)
  have hunbroken : Unbroken s := fun c hc => (hplain c hc).2.2
  have huncut : Uncut s := balanced_of_forall fun c hc => ⟨(hplain c hc).1, (hplain c hc).2.1⟩
  refine ⟨huncut, hunbroken.tight, ?_, ?_,
    fun c hc => ⟨(hplain c (List.mem_of_mem_head? hc)).2.1, ?_⟩⟩
  · rintro rfl
    cases h
  · rintro rfl
    exact absurd h (by decide)
  · cases s with
    | nil => cases hc
    | cons first rest =>
      obtain rfl := Option.some.inj hc
      rw [isIdentifier, Bool.and_eq_true] at h
      rw [Bool.eq_false_iff]
      intro hdigit
      have hrange := Numeral.toNat_of_isDigit hdigit
      have hstart := h.1
      simp only [isSymbolStart, Bool.or_eq_true, isAlpha_iff, decide_eq_true_eq] at hstart
      rcases hstart with ((hletter | rfl) | rfl) | rfl
      · omega
      all_goals exact absurd hdigit (by decide)

theorem isSymbolChar_of_digit? {d : Nat} (h : Numeral.digit? c = some d) :
    isSymbolChar c = true := by
  have hrange : (48 ≤ c.toNat ∧ c.toNat ≤ 57) ∨ (65 ≤ c.toNat ∧ c.toNat ≤ 90) ∨
      (97 ≤ c.toNat ∧ c.toNat ≤ 122) := by
    rw [Numeral.digit?_eq] at h
    grind
  simp only [isSymbolChar, Char.isAlphanum, Bool.or_eq_true, isAlpha_iff]
  rcases hrange with hdigit | hletter
  · refine .inl (.inl (.inl (.inr ?_)))
    rw [Char.isDigit, Bool.and_eq_true, decide_eq_true_eq, decide_eq_true_eq]
    exact hdigit
  · exact .inl (.inl (.inl (.inl hletter)))

theorem IsNumber.isSymbolChar {digits : List Char} {n : Nat} (h : IsNumber digits n) :
    ∀ c ∈ digits, isSymbolChar c = true := by
  have hdigits {base : Nat} {s : List Char} (hs : Numeral.IsNumeral base s n) :
      ∀ c ∈ s, Assembler.isSymbolChar c = true := by
    intro c hc
    obtain ⟨d, -, hd⟩ := hs.digit_of_mem hc
    exact isSymbolChar_of_digit? hd
  have hmarked {s : List Char} {mark : Char} (hs : ∀ c ∈ s, Assembler.isSymbolChar c = true)
      (hmark : Assembler.isSymbolChar mark = true) :
      ∀ c ∈ s ++ [mark], Assembler.isSymbolChar c = true :=
    List.forall_mem_append.mpr ⟨hs, List.forall_mem_singleton.mpr hmark⟩
  cases h with
  | decimal h => exact hdigits h
  | decimalMarked hmark h => exact hmarked (hdigits h) (by rcases hmark with rfl | rfl <;> decide)
  | binary hmark h => exact hmarked (hdigits h) (by rcases hmark with rfl | rfl <;> decide)
  | hexadecimal hmark hfirst h =>
    exact hmarked (hdigits h) (by rcases hmark with rfl | rfl <;> decide)
  | hexadecimalPrefixed hmark h =>
    refine List.forall_mem_cons.mpr ⟨by decide, List.forall_mem_cons.mpr ⟨?_, hdigits h⟩⟩
    rcases hmark with rfl | rfl <;> decide

/-- A number begins with a digit. -/
theorem IsNumber.exists_cons {digits : List Char} {n : Nat} (h : IsNumber digits n) :
    ∃ first rest, digits = first :: rest ∧ first.isDigit = true := by
  have hdecimal {base : Nat} {s : List Char} (hbase : base ≤ 10) (hs : Numeral.IsNumeral base s n) :
      ∃ first rest, s = first :: rest ∧ first.isDigit = true := by
    obtain ⟨first, rest, rfl⟩ := List.exists_cons_of_ne_nil hs.1
    obtain ⟨d, hsmall, hd⟩ := hs.digit_of_mem List.mem_cons_self
    exact ⟨first, rest, rfl, Numeral.isDigit_of_digit?_lt hd (by omega)⟩
  cases h with
  | decimal h => exact hdecimal (by decide) h
  | decimalMarked hmark h =>
    obtain ⟨first, rest, rfl, hfirst⟩ := hdecimal (by decide) h
    exact ⟨first, rest ++ _, rfl, hfirst⟩
  | binary hmark h =>
    obtain ⟨first, rest, rfl, hfirst⟩ := hdecimal (by decide) h
    exact ⟨first, rest ++ _, rfl, hfirst⟩
  | hexadecimal hmark hfirst h => exact ⟨_, _, rfl, hfirst⟩
  | hexadecimalPrefixed hmark h => exact ⟨'0', _, rfl, by decide⟩

/-- What a scanner needs to know of a term. -/
theorem IsTerm.uncut (h : IsTerm symbols here t v) : Uncut t ∧ Tight t ∧ t ≠ [] := by
  cases h with
  | here => exact ⟨by decide, Unbroken.tight (by decide), List.cons_ne_nil _ _⟩
  | symbol hname => exact ⟨hname.uncut, hname.tight, hname.ne_nil⟩
  | @character q c hquote hne hbyte =>
    have hbody : q ∉ [c] := by
      rw [List.mem_singleton]
      exact Ne.symm hne
    have hplain : ¬IsSign q ∧ isBlank q = false := by
      rw [isQuote, Bool.or_eq_true, decide_eq_true_eq, decide_eq_true_eq] at hquote
      rcases hquote with rfl | rfl <;> decide
    refine ⟨balanced_string hquote hbody hplain.1, ⟨?_, ?_⟩, List.cons_ne_nil _ _⟩
    · exact fun d hd => Option.some.inj hd ▸ hplain.2
    · exact fun d hd => Option.some.inj hd ▸ hplain.2
  | number h =>
    have hplain := fun c hc => plain_of_isSymbolChar (h.isSymbolChar c hc)
    have hunbroken : Unbroken t := fun c hc => (hplain c hc).2.2
    obtain ⟨first, rest, rfl, -⟩ := h.exists_cons
    exact ⟨balanced_of_forall fun c hc => ⟨(hplain c hc).1, (hplain c hc).2.1⟩, hunbroken.tight,
      List.cons_ne_nil _ _⟩

/-- A text in quotes is an operand that is nothing but a string. -/
theorem quoted?_eq_some_iff {q : Char} {rest inner : List Char} (hq : isQuote q = true) :
    quoted? (q :: rest) = .ok (some inner) ↔ rest = inner ++ [q] ∧ q ∉ inner := by
  constructor
  · intro h
    rw [quoted?, if_pos hq] at h
    split at h
    case h_1 => cases h
    case h_3 => cases h
    case h_2 last hlast =>
      obtain rfl := Option.some.inj (Except.ok.inj h)
      have hend : last = q := by
        have hstop := List.head?_dropWhile_not (fun c => decide (c ≠ q)) rest
        rw [hlast] at hstop
        simpa using hstop
      have hparts := List.takeWhile_append_dropWhile (p := fun c => decide (c ≠ q)) (l := rest)
      rw [hlast, hend] at hparts
      refine ⟨hparts.symm, fun hmem => ?_⟩
      have hinside := List.mem_takeWhile_imp hmem
      rw [decide_eq_true_eq] at hinside
      exact hinside rfl
  · rintro ⟨rfl, hbody⟩
    exact quoted?_string hq hbody

/-- A term is read and has a value exactly if it is one of the four kinds. -/
theorem value_read_iff (huncut : Uncut t) (htight : Tight t) :
    (∃ term, Term.read t = .ok term ∧ term.value symbols here = .ok v) ↔
      IsTerm symbols here t v := by
  constructor
  · rintro ⟨term, hread, hvalue⟩
    unfold Term.read at hread
    split at hread
    case h_1 => cases hread
    case h_2 =>
      obtain rfl := Except.ok.inj hread
      obtain rfl := Except.ok.inj hvalue
      exact .here
    case h_3 first rest hhere =>
      split at hread
      case isTrue hquote =>
        split at hread
        case h_1 => cases hread
        case h_2 => cases hread
        case h_3 inner hinner =>
          split at hread
          case h_2 => cases hread
          case h_1 b hb =>
            obtain rfl := Except.ok.inj hread
            obtain rfl := Except.ok.inj hvalue
            obtain ⟨c, rfl, hascii, rfl⟩ := Utf8.encode_eq_singleton_iff.mp hb
            obtain ⟨rfl, hbody⟩ := (quoted?_eq_some_iff hquote).mp hinner
            rw [UInt8.toNat_ofNat_of_lt' (by change c.toNat < 256; omega)]
            exact .character hquote (Ne.symm (List.ne_of_not_mem_cons hbody)) hascii
      case isFalse hquote =>
        rw [Bool.not_eq_true] at hquote
        split at hread
        case isTrue hdigit =>
          split at hread
          case h_2 => cases hread
          case h_1 n hn =>
            obtain rfl := Except.ok.inj hread
            obtain rfl := Except.ok.inj hvalue
            have hfirst : ∀ c ∈ (first :: rest).head?, c.isDigit = true :=
              fun c hc => Option.some.inj hc ▸ hdigit
            obtain ⟨hnumber, hfits⟩ := (number?_eq_some_iff hfirst).mp hn
            exact .number hnumber hfits
        case isFalse hdigit =>
          rw [Bool.not_eq_true] at hdigit
          obtain rfl := Except.ok.inj hread
          rw [Term.value] at hvalue
          split at hvalue
          case h_2 => cases hvalue
          case h_1 word hword =>
            obtain rfl := Except.ok.inj hvalue
            refine .symbol ⟨huncut, htight, List.cons_ne_nil _ _, ?_, ?_⟩ hword
            · rintro heq
              obtain ⟨rfl, rfl⟩ := List.cons.inj heq
              exact hhere rfl rfl
            · exact fun c hc => Option.some.inj hc ▸ ⟨hquote, hdigit⟩
  · intro h
    cases h with
    | here => exact ⟨.here, rfl, rfl⟩
    | @symbol _ value hname hvalue =>
      obtain ⟨first, rest, rfl⟩ := List.exists_cons_of_ne_nil hname.ne_nil
      obtain ⟨hquote, hdigit⟩ := hname.first first rfl
      refine ⟨.symbol (String.ofList (upper (first :: rest))), ?_, ?_⟩
      · rw [Term.read, if_neg (by rw [hquote]; decide), if_neg (by rw [hdigit]; decide)]
        rintro rfl rfl
        exact hname.ne_here rfl
      · rw [Term.value, hvalue]
    | @character q c hquote hne hbyte =>
      have hinner : quoted? [q, c, q] = .ok (some [c]) :=
        quoted?_string hquote fun hmem => hne (List.mem_singleton.mp hmem).symm
      have hencoded : Utf8.encode [c] = [UInt8.ofNat c.toNat] :=
        Utf8.encode_eq_singleton_iff.mpr ⟨c, rfl, hbyte, rfl⟩
      refine ⟨.constant c.toNat, ?_, rfl⟩
      rw [Term.read, if_pos hquote, hinner]
      · dsimp only
        rw [hencoded]
        dsimp only
        rw [UInt8.toNat_ofNat_of_lt' (by change c.toNat < 256; omega)]
      · rintro - heq
        cases heq
    | @number _ n hnumber hfits =>
      obtain ⟨first, rest, rfl, hdigit⟩ := hnumber.exists_cons
      have hplain := plain_of_isSymbolChar (hnumber.isSymbolChar first List.mem_cons_self)
      have hfirst : ∀ c ∈ (first :: rest).head?, c.isDigit = true :=
        fun c hc => Option.some.inj hc ▸ hdigit
      have hread : number? (first :: rest) = some n :=
        (number?_eq_some_iff hfirst).mpr ⟨hnumber, hfits⟩
      refine ⟨.constant n, ?_, rfl⟩
      rw [Term.read, if_neg (by rw [hplain.2.1]; decide), if_pos hdigit, hread]
      rintro rfl -
      exact absurd hdigit (by decide)

end Assembler

end Cpm80
