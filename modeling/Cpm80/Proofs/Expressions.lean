import Cpm80.Assembler.Expression

/-!
# Expressions under a growing table

The sizing pass evaluates operands with the symbols it has met so far, the emitting pass with
all of them. An expression that has a value keeps it when the table grows, since a value needs
every symbol of the expression to be defined already.
-/
namespace Cpm80.Assembler

/-- All symbols of `small` have the same values in `big`. -/
def Symbols.Within (small big : Symbols) : Prop :=
  ∀ name value, small.get? name = some value → big.get? name = some value

theorem Symbols.Within.refl (symbols : Symbols) : symbols.Within symbols :=
  fun _ _ h => h

theorem Symbols.Within.trans {a b c : Symbols} (hab : a.Within b) (hbc : b.Within c) :
    a.Within c :=
  fun name value h => hbc name value (hab name value h)

/-- A table grows by a name that it does not have. -/
theorem Symbols.within_insert {symbols : Symbols} {name : String} (value : UInt16)
    (h : symbols.contains name = false) : symbols.Within (symbols.insert name value) := by
  intro other old hold
  rw [SortedMap.get?_insert]
  split
  case isTrue heq =>
    subst heq
    rw [SortedMap.contains, hold] at h
    cases h
  case isFalse hne => exact hold

variable {small big : Symbols} {here : UInt16}

theorem Term.value_within (h : small.Within big) {term : Term} {v : Int}
    (hv : term.value small here = .ok v) : term.value big here = .ok v := by
  cases term with
  | here => exact hv
  | constant n => exact hv
  | symbol name =>
    rw [Term.value] at hv ⊢
    split at hv
    case h_1 word hword =>
      rw [h name word hword]
      exact hv
    case h_2 hnone => cases hv

/-- The value of a chain of computations has a value at its first link. -/
theorem bind_eq_ok {ε α β : Type} {x : Except ε α} {f : α → Except ε β} {b : β} :
    x >>= f = .ok b ↔ ∃ a, x = .ok a ∧ f a = .ok b := by
  cases x with
  | error e => simp [bind, Except.bind]
  | ok a => simp [bind, Except.bind]

theorem sumTerms_within (h : small.Within big) {whole : List Char} {total v : Int}
    {terms : List SignedText} (hv : sumTerms small here whole total terms = .ok v) :
    sumTerms big here whole total terms = .ok v := by
  induction terms generalizing total with
  | nil => exact hv
  | cons t rest ih =>
    rw [sumTerms, bind_eq_ok] at hv ⊢
    obtain ⟨term, hterm, hv⟩ := hv
    rw [bind_eq_ok] at hv
    obtain ⟨value, hvalue, hv⟩ := hv
    refine ⟨term, hterm, bind_eq_ok.mpr ⟨value, Term.value_within h hvalue, ?_⟩⟩
    by_cases hfits : FitsSigned64 (if t.negative then total - value else total + value)
    · rw [if_pos hfits] at hv ⊢
      exact ih hv
    · rw [if_neg hfits] at hv
      cases hv

theorem evaluate_within (h : small.Within big) {text : List Char} {v : Int}
    (hv : evaluate small here text = .ok v) : evaluate big here text = .ok v := by
  rw [evaluate] at hv ⊢
  split at hv
  case isTrue hempty => cases hv
  case isFalse hsome =>
    rw [if_neg hsome]
    split at hv
    case h_1 e hsplit => cases hv
    case h_2 terms hsplit => exact sumTerms_within h hv

theorem wordValue_within (h : small.Within big) {text : List Char} {w : UInt16}
    (hw : wordValue small here text = .ok w) : wordValue big here text = .ok w := by
  rw [wordValue, bind_eq_ok] at hw ⊢
  obtain ⟨v, hv, hw⟩ := hw
  exact ⟨v, evaluate_within h hv, hw⟩

end Cpm80.Assembler
