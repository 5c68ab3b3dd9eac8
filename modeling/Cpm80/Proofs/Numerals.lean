import Cpm80.Assembler.Expression
import Cpm80.Proofs.Words
import Mathlib.Data.Nat.Digits.Defs

/-!
# Numerals

What a numeral is, apart from how it is read: digits of a base, each of which counts for the base
times as much as the next. Letters count in either case. A decimal number that has to keep to a
limit may carry a plus sign. An operand may write a number in five ways; they are told apart by
their first two characters and their last one, which are no digits of the base.
-/
namespace Cpm80

open Text

namespace Numeral

variable {limit n : Nat} {digits s : List Char}

theorem toNat_of_isDigit {c : Char} (h : c.isDigit = true) : 48 ≤ c.toNat ∧ c.toNat ≤ 57 := by
  rw [Char.isDigit, Bool.and_eq_true, decide_eq_true_eq, decide_eq_true_eq] at h
  exact h

theorem isBlank_of_isDigit {c : Char} (h : c.isDigit = true) : isBlank c = false := by
  obtain ⟨hlow, hhigh⟩ := toNat_of_isDigit h
  rw [Bool.eq_false_iff]
  simp only [isBlank, ne_eq, Bool.or_eq_true, Bool.and_eq_true, decide_eq_true_eq]
  omega

theorem digit?_of_isDigit {c : Char} (h : c.isDigit = true) :
    digit? c = some (c.toNat - '0'.toNat) ∧ c.toNat - '0'.toNat < 10 := by
  obtain ⟨hlow, hhigh⟩ := toNat_of_isDigit h
  constructor
  · rw [digit?, if_pos ⟨hlow, hhigh⟩]
    rfl
  · have hzero : '0'.toNat = 48 := rfl
    omega

theorem extend?_of_isDigit (h : ∀ c ∈ digits, c.isDigit = true) (n : Nat) :
    extend? 10 n digits = some (Nat.ofDigitChars 10 digits n) := by
  induction digits generalizing n with
  | nil => rfl
  | cons c digits ih =>
    obtain ⟨hc, hdigits⟩ := List.forall_mem_cons.mp h
    obtain ⟨hdigit, hsmall⟩ := digit?_of_isDigit hc
    simp only [extend?, hdigit, if_pos hsmall, ih hdigits]
    rw [Nat.mul_comm]
    rfl

theorem isDigit_of_mem_repr {c : Char} (h : c ∈ n.repr.toList) : c.isDigit = true := by
  rw [Nat.toList_repr] at h
  exact Nat.isDigit_of_mem_toDigits (by decide) (by decide) h

theorem repr_ne_nil (n : Nat) : n.repr.toList ≠ [] := by
  rw [Nat.toList_repr]
  exact Nat.toDigits_ne_nil

theorem nat?_repr (n : Nat) : nat? 10 n.repr.toList = some n := by
  have hsome : n.repr.toList.isEmpty = false := List.isEmpty_eq_false_iff.mpr (repr_ne_nil n)
  rw [nat?, hsome, if_neg Bool.false_ne_true, extend?_of_isDigit fun _ => isDigit_of_mem_repr,
    Nat.toList_repr, Nat.ofDigitChars_toDigits (by decide) (by decide)]

/-- A number is read from the digits that it is written with. -/
theorem bounded?_repr (h : n ≤ limit) : bounded? limit n.repr.toList = some n := by
  unfold bounded?
  split
  case h_1 rest heq =>
    have hdigit : '+'.isDigit = true := isDigit_of_mem_repr (heq ▸ List.mem_cons_self)
    exact absurd hdigit (by decide)
  case h_2 => simp only [nat?_repr, if_pos h]

theorem le_of_bounded? (h : bounded? limit s = some n) : n ≤ limit := by
  unfold bounded? at h
  dsimp only at h
  split at h
  case h_1 m hm =>
    split at h
    case isTrue hle => exact Option.some.inj h ▸ hle
    case isFalse => cases h
  case h_2 => cases h

/-! ## Numerals in a base -/

/-- The digits of a number in a base, in either case. -/
def IsNumeral (base : Nat) (s : List Char) (n : Nat) : Prop :=
  s ≠ [] ∧ ∃ ds : List Nat, List.Forall₂ (fun c d => digit? c = some d ∧ d < base) s ds ∧
    n = Nat.ofDigits base ds.reverse

theorem digit?_eq (c : Char) :
    digit? c =
      if 48 ≤ c.toNat ∧ c.toNat ≤ 57 then some (c.toNat - 48)
      else if 65 ≤ c.toNat ∧ c.toNat ≤ 70 then some (c.toNat - 55)
      else if 97 ≤ c.toNat ∧ c.toNat ≤ 102 then some (c.toNat - 87)
      else none := rfl

theorem digit?_toUpper (c : Char) : digit? c.toUpper = digit? c := by
  rw [digit?_eq, digit?_eq, toNat_toUpper]
  grind

theorem isDigit_of_digit?_lt {c : Char} {d : Nat} (h : digit? c = some d) (hd : d < 10) :
    c.isDigit = true := by
  have hrange : 48 ≤ c.toNat ∧ c.toNat ≤ 57 := by
    rw [digit?_eq] at h
    grind
  rw [Char.isDigit, Bool.and_eq_true, decide_eq_true_eq, decide_eq_true_eq]
  exact hrange

theorem extend?_eq_some_iff {base m : Nat} :
    extend? base n s = some m ↔
      ∃ ds : List Nat, List.Forall₂ (fun c d => digit? c = some d ∧ d < base) s ds ∧
        m = n * base ^ ds.length + Nat.ofDigits base ds.reverse := by
  induction s generalizing n with
  | nil =>
    rw [extend?, Option.some.injEq]
    constructor
    · rintro rfl
      exact ⟨[], .nil, by simp⟩
    · rintro ⟨ds, hds, rfl⟩
      cases hds
      simp
  | cons c s ih =>
    have hnext (d : Nat) (ds : List Nat) :
        (n * base + d) * base ^ ds.length + Nat.ofDigits base ds.reverse =
          n * base ^ (d :: ds).length + Nat.ofDigits base (d :: ds).reverse := by
      rw [List.reverse_cons, Nat.ofDigits_append, Nat.ofDigits_singleton, List.length_reverse,
        List.length_cons, Nat.pow_succ]
      ring
    constructor
    · intro h
      rw [extend?] at h
      split at h
      case h_2 => cases h
      case h_1 d hd =>
        split at h
        case isFalse => cases h
        case isTrue hsmall =>
          obtain ⟨ds, hds, hm⟩ := ih.mp h
          exact ⟨d :: ds, .cons ⟨hd, hsmall⟩ hds, hm.trans (hnext d ds)⟩
    · rintro ⟨ds, hds, hm⟩
      cases hds with
      | @cons c d s ds hc hrest =>
        simp only [extend?, hc.1, if_pos hc.2]
        exact ih.mpr ⟨ds, hrest, hm.trans (hnext d ds).symm⟩

theorem nat?_eq_some_iff {base : Nat} : nat? base s = some n ↔ IsNumeral base s n := by
  rw [nat?, IsNumeral]
  split
  case isTrue hempty => simp [List.isEmpty_iff.mp hempty]
  case isFalse hsome =>
    rw [List.isEmpty_iff] at hsome
    simp only [extend?_eq_some_iff, Nat.zero_mul, Nat.zero_add, hsome, ne_eq, not_false_eq_true,
      true_and]

theorem extend?_upper (base n : Nat) (s : List Char) :
    extend? base n (upper s) = extend? base n s := by
  induction s generalizing n with
  | nil => rfl
  | cons c s ih =>
    rw [upper, List.map_cons, ← upper]
    simp only [extend?, digit?_toUpper, ih]

theorem nat?_upper (base : Nat) (s : List Char) : nat? base (upper s) = nat? base s := by
  rw [nat?, nat?, extend?_upper, upper, List.isEmpty_map]

theorem IsNumeral.digit_of_mem {base : Nat} (h : IsNumeral base s n) {c : Char} (hc : c ∈ s) :
    ∃ d < base, digit? c = some d := by
  obtain ⟨-, ds, hds, -⟩ := h
  induction hds with
  | nil => cases hc
  | @cons first d s ds hd hrest ih =>
    rcases List.mem_cons.mp hc with rfl | hc
    · exact ⟨d, hd.2, hd.1⟩
    · exact ih hc

/-! ## Decimal numbers with a limit -/

/-- A decimal number as it may be typed where a limit is set, with a plus sign or without. -/
inductive IsCount : List Char → Nat → Prop
  | plain {digits : List Char} {n : Nat} (h : IsNumeral 10 digits n) : IsCount digits n
  | signed {digits : List Char} {n : Nat} (h : IsNumeral 10 digits n) :
    IsCount ('+' :: digits) n

theorem isCount_signed_iff : IsCount ('+' :: digits) n ↔ IsNumeral 10 digits n := by
  constructor
  · intro h
    cases h with
    | plain h =>
      -- a plus sign is no digit
      obtain ⟨d, -, hdigit⟩ := h.digit_of_mem List.mem_cons_self
      cases hdigit
    | signed h => exact h
  · exact .signed

theorem bounded?_eq_some_iff : bounded? limit s = some n ↔ IsCount s n ∧ n ≤ limit := by
  constructor
  · intro h
    refine ⟨?_, le_of_bounded? h⟩
    unfold bounded? at h
    dsimp only at h
    split at h
    case h_2 => cases h
    case h_1 m hm =>
      split at h
      case isFalse => cases h
      case isTrue =>
        obtain rfl := Option.some.inj h
        split at hm
        case h_1 => exact .signed (nat?_eq_some_iff.mp hm)
        case h_2 => exact .plain (nat?_eq_some_iff.mp hm)
  · rintro ⟨h, hfits⟩
    unfold bounded?
    split
    case h_1 digits =>
      simp only [nat?_eq_some_iff.mpr (isCount_signed_iff.mp h), if_pos hfits]
    case h_2 hplain =>
      cases h with
      | plain h => simp only [nat?_eq_some_iff.mpr h, if_pos hfits]
      | signed h => exact absurd rfl (hplain _)

theorem IsCount.plus_or_digit (h : IsCount s n) : ∀ c ∈ s, c = '+' ∨ c.isDigit = true := by
  have hdigits {digits : List Char} (h : IsNumeral 10 digits n) :
      ∀ c ∈ digits, c = '+' ∨ c.isDigit = true := by
    intro c hc
    obtain ⟨d, hd, hdigit⟩ := h.digit_of_mem hc
    exact .inr (isDigit_of_digit?_lt hdigit hd)
  cases h with
  | plain h => exact hdigits h
  | signed h => exact List.forall_mem_cons.mpr ⟨.inl rfl, hdigits h⟩

theorem IsCount.unbroken (h : IsCount s n) : Unbroken s := by
  intro c hc
  rcases h.plus_or_digit c hc with rfl | hdigit
  · rfl
  · exact isBlank_of_isDigit hdigit

theorem IsCount.not_isAlpha (h : IsCount s n) : ∀ c ∈ s, ¬c.isAlpha := by
  intro c hc
  rcases h.plus_or_digit c hc with rfl | hdigit
  · decide
  · rw [isAlpha_iff]
    have := toNat_of_isDigit hdigit
    omega

end Numeral

namespace Assembler

open Numeral

/-- The ways in which an operand may write a number. A number begins with a digit: with a letter
in front it would be a name. -/
inductive IsNumber : List Char → Nat → Prop
  | decimal {digits : List Char} {n : Nat} (h : IsNumeral 10 digits n) : IsNumber digits n
  | decimalMarked {digits : List Char} {n : Nat} {mark : Char} (hmark : mark = 'D' ∨ mark = 'd')
    (h : IsNumeral 10 digits n) : IsNumber (digits ++ [mark]) n
  | binary {digits : List Char} {n : Nat} {mark : Char} (hmark : mark = 'B' ∨ mark = 'b')
    (h : IsNumeral 2 digits n) : IsNumber (digits ++ [mark]) n
  | hexadecimal {first : Char} {digits : List Char} {n : Nat} {mark : Char}
    (hmark : mark = 'H' ∨ mark = 'h') (hfirst : first.isDigit = true)
    (h : IsNumeral 16 (first :: digits) n) : IsNumber (first :: digits ++ [mark]) n
  | hexadecimalPrefixed {digits : List Char} {n : Nat} {mark : Char}
    (hmark : mark = 'X' ∨ mark = 'x') (h : IsNumeral 16 digits n) :
    IsNumber ('0' :: mark :: digits) n

variable {text digits : List Char} {base n : Nat}

theorem toUpper_eq_letter_iff {c : Char} {upper lower : Char}
    (hrange : 65 ≤ upper.toNat ∧ upper.toNat ≤ 90) (hlower : lower.toNat = upper.toNat + 32) :
    c.toUpper = upper ↔ c = upper ∨ c = lower := by
  rw [← Char.toNat_inj, ← Char.toNat_inj, ← Char.toNat_inj, toNat_toUpper]
  split <;> omega

/-- A text with a marker at its end is not taken for one with the leading `0X`. -/
theorem numberForm_marked {mark : Char} (hmark : mark ≠ 'X') (hdigits : 'X' ∉ digits) :
    numberForm (digits ++ [mark]) =
      if mark = 'H' then (16, digits) else if mark = 'B' then (2, digits)
      else if mark = 'D' then (10, digits) else (10, digits ++ [mark]) := by
  have hprefix : ∀ hex, digits ++ [mark] ≠ '0' :: 'X' :: hex := by
    intro hex heq
    have hmem : 'X' ∈ (digits ++ [mark]) := by
      rw [heq]
      exact List.mem_cons_of_mem _ List.mem_cons_self
    rcases List.mem_append.mp hmem with hmem | hmem
    · exact hdigits hmem
    · exact hmark (List.mem_singleton.mp hmem).symm
  have hlast : (digits ++ [mark]).getLast? = some mark := List.getLast?_concat
  rw [numberForm, hlast, List.dropLast_concat]
  · split <;> simp_all
  · exact hprefix

theorem notMem_upper_of_isNumeral (h : IsNumeral base digits n) : 'X' ∉ upper digits := by
  intro hmem
  obtain ⟨c, hc, hmark⟩ := List.mem_map.mp hmem
  obtain ⟨d, -, hd⟩ := h.digit_of_mem hc
  rw [← digit?_toUpper, hmark] at hd
  cases hd

theorem isNumeral_upper : IsNumeral base (upper digits) n ↔ IsNumeral base digits n := by
  rw [← nat?_eq_some_iff, nat?_upper, nat?_eq_some_iff]

/-- The mark at the end of a text, in its own case. -/
theorem exists_mark_of_getLast?_upper {mark : Char} (h : (upper text).getLast? = some mark) :
    ∃ last, text = text.dropLast ++ [last] ∧ last.toUpper = mark := by
  rw [upper, List.getLast?_map] at h
  obtain ⟨last, hlast, hmark⟩ := Option.map_eq_some_iff.mp h
  obtain ⟨init, rfl⟩ := List.getLast?_eq_some_iff.mp hlast
  exact ⟨last, by rw [List.dropLast_concat], hmark⟩

theorem dropLast_upper (text : List Char) : (upper text).dropLast = upper text.dropLast :=
  List.map_dropLast.symm

/-- The form of a text is that of its notation, if the text begins with a digit. -/
theorem isNumber_of_numberForm (hfirst : ∀ c ∈ text.head?, c.isDigit = true)
    (h : IsNumeral (numberForm (upper text)).1 (numberForm (upper text)).2 n) :
    IsNumber text n := by
  unfold numberForm at h
  split at h
  case h_1 hex heq =>
    obtain ⟨zero, rest, rfl, hzero, heq⟩ := List.map_eq_cons_iff.mp heq
    obtain ⟨mark, digits, rfl, hmark, rfl⟩ := List.map_eq_cons_iff.mp heq
    obtain rfl : zero = '0' := (toUpper_eq_iff (by decide)).mp hzero
    exact .hexadecimalPrefixed ((toUpper_eq_letter_iff (by decide) rfl).mp hmark)
      (isNumeral_upper.mp h)
  case h_2 =>
    split at h
    case h_1 hlast =>
      obtain ⟨last, htext, hmark⟩ := exists_mark_of_getLast?_upper hlast
      rw [dropLast_upper, isNumeral_upper] at h
      obtain ⟨first, digits, hdigits⟩ := List.exists_cons_of_ne_nil h.1
      rw [hdigits] at htext h
      have hdigit : first.isDigit = true := hfirst first (by rw [htext]; rfl)
      rw [htext]
      exact .hexadecimal ((toUpper_eq_letter_iff (by decide) rfl).mp hmark) hdigit h
    case h_2 hlast =>
      obtain ⟨last, htext, hmark⟩ := exists_mark_of_getLast?_upper hlast
      rw [dropLast_upper, isNumeral_upper] at h
      rw [htext]
      exact .binary ((toUpper_eq_letter_iff (by decide) rfl).mp hmark) h
    case h_3 hlast =>
      obtain ⟨last, htext, hmark⟩ := exists_mark_of_getLast?_upper hlast
      rw [dropLast_upper, isNumeral_upper] at h
      rw [htext]
      exact .decimalMarked ((toUpper_eq_letter_iff (by decide) rfl).mp hmark) h
    case h_4 => exact .decimal (isNumeral_upper.mp h)

/-- The form of a text in one of the notations has the digits that the notation says. -/
theorem numberForm_of_isNumber (h : IsNumber text n) :
    ∃ base digits, numberForm (upper text) = (base, upper digits) ∧ IsNumeral base digits n := by
  cases h with
  | decimal h =>
    refine ⟨10, text, ?_, h⟩
    obtain ⟨init, last, rfl⟩ := (List.eq_nil_or_concat text).resolve_left h.1
    rw [List.concat_eq_append] at h ⊢
    have hupper : upper (init ++ [last]) = upper init ++ [last.toUpper] := List.map_append
    have hx : 'X' ∉ upper init ++ [last.toUpper] := by
      rw [← hupper]
      exact notMem_upper_of_isNumeral h
    rw [List.mem_append, List.mem_singleton, not_or] at hx
    -- no decimal digit is a mark
    obtain ⟨d, hd, hlast⟩ := h.digit_of_mem (List.mem_append_right _ (List.mem_singleton_self last))
    rw [← digit?_toUpper] at hlast
    rw [hupper, numberForm_marked (Ne.symm hx.2) hx.1]
    split_ifs with hh hb hd
    · rw [hh] at hlast
      cases hlast
    · rw [hb] at hlast
      obtain rfl : 11 = d := Option.some.inj hlast
      omega
    · rw [hd] at hlast
      obtain rfl : 13 = d := Option.some.inj hlast
      omega
    · rfl
  | @decimalMarked digits n mark hmark h =>
    refine ⟨10, digits, ?_, h⟩
    have hupper : upper (digits ++ [mark]) = upper digits ++ ['D'] := by
      rcases hmark with rfl | rfl <;> exact List.map_append
    rw [hupper, numberForm_marked (by decide) (notMem_upper_of_isNumeral h)]
    rfl
  | @binary digits n mark hmark h =>
    refine ⟨2, digits, ?_, h⟩
    have hupper : upper (digits ++ [mark]) = upper digits ++ ['B'] := by
      rcases hmark with rfl | rfl <;> exact List.map_append
    rw [hupper, numberForm_marked (by decide) (notMem_upper_of_isNumeral h)]
    rfl
  | @hexadecimal first digits n mark hmark hfirst h =>
    refine ⟨16, first :: digits, ?_, h⟩
    have hupper : upper (first :: digits ++ [mark]) = upper (first :: digits) ++ ['H'] := by
      rcases hmark with rfl | rfl <;> exact List.map_append
    rw [hupper, numberForm_marked (by decide) (notMem_upper_of_isNumeral h)]
    rfl
  | @hexadecimalPrefixed digits n mark hmark h =>
    refine ⟨16, digits, ?_, h⟩
    have hupper : upper ('0' :: mark :: digits) = '0' :: 'X' :: upper digits := by
      rcases hmark with rfl | rfl <;> rfl
    rw [hupper]
    rfl

/-- A text that begins with a digit is read as a number exactly if it is written as one and
the number fits 64 bits with a sign. -/
theorem number?_eq_some_iff (hfirst : ∀ c ∈ text.head?, c.isDigit = true) :
    number? text = some n ↔ IsNumber text n ∧ n ≤ 0x7FFFFFFFFFFFFFFF := by
  constructor
  · intro h
    unfold number? at h
    dsimp only at h
    split at h
    case h_2 => cases h
    case h_1 m hm =>
      split at h
      case isFalse => cases h
      case isTrue hfits =>
        obtain rfl := Option.some.inj h
        exact ⟨isNumber_of_numberForm hfirst (nat?_eq_some_iff.mp hm), hfits⟩
  · rintro ⟨h, hfits⟩
    obtain ⟨base, digits, hform, hdigits⟩ := numberForm_of_isNumber h
    have hvalue : nat? base (upper digits) = some n := by
      rw [nat?_upper]
      exact nat?_eq_some_iff.mpr hdigits
    rw [number?, hform]
    simp only [hvalue, if_pos hfits]

end Assembler

end Cpm80
