import Cpm80.FileName
import Cpm80.Proofs.Words

/-!
# Names in normal form

Trimming and raising letters do nothing to a text that has been through them, and neither makes
an allowed name into a forbidden one. So a name in normal form is its own normal form: a drive
that keeps its files under such names finds each of them again under the name it lists.
-/
namespace Cpm80

namespace Text

variable {s : List Char}

theorem trimEnd_prefix (s : List Char) : trimEnd s <+: s := by
  rw [trimEnd, ← List.reverse_suffix, List.reverse_reverse]
  exact List.dropWhile_suffix isBlank

/-- What is trimmed has no blank left at its ends. -/
theorem tight_trim (s : List Char) : Tight (trim s) := by
  constructor
  · intro c hc
    obtain ⟨rest, hrest⟩ := trimEnd_prefix (trimStart s)
    apply head?_trimStart s
    rw [← hrest, List.head?_append]
    rw [trim] at hc
    rw [hc]
    rfl
  · intro c hc
    rw [trim, trimEnd, List.getLast?_reverse] at hc
    exact head?_trimStart (trimStart s).reverse c hc

theorem Tight.upper (h : Tight s) : Tight (upper s) := by
  constructor
  · intro c hc
    rw [Text.upper, List.head?_map] at hc
    obtain ⟨d, hd, rfl⟩ := Option.map_eq_some_iff.mp hc
    rw [isBlank_toUpper]
    exact h.1 d hd
  · intro c hc
    rw [Text.upper, List.getLast?_map] at hc
    obtain ⟨d, hd, rfl⟩ := Option.map_eq_some_iff.mp hc
    rw [isBlank_toUpper]
    exact h.2 d hd

/-- A text without letters is the upper-case form of itself only. -/
theorem upper_eq_iff {mark : List Char} (hmark : ∀ c ∈ mark, ¬c.isAlpha) :
    upper s = mark ↔ s = mark := by
  induction mark generalizing s with
  | nil => simp [upper]
  | cons d mark ih =>
    obtain ⟨hd, hmark⟩ := List.forall_mem_cons.mp hmark
    cases s with
    | nil => simp [upper]
    | cons c s =>
      rw [upper, List.map_cons, List.cons.injEq, List.cons.injEq, toUpper_eq_iff hd,
        ← upper, ih hmark]

end Text

namespace FileName

open Text

/-- A character that no name on a drive holds. -/
def isForbidden (c : Char) : Bool :=
  c = '/' || c = '\\' || c = ':' || isControl c

theorem isForbidden_toUpper (c : Char) : isForbidden c.toUpper = isForbidden c := by
  have hcontrol : isControl c.toUpper = isControl c := by
    rw [Bool.eq_iff_iff]
    simp only [isControl, toNat_toUpper, Bool.or_eq_true, Bool.and_eq_true, decide_eq_true_eq]
    split <;> omega
  have hslash : c.toUpper = '/' ↔ c = '/' := toUpper_eq_iff (by decide)
  have hbackslash : c.toUpper = '\\' ↔ c = '\\' := toUpper_eq_iff (by decide)
  have hcolon : c.toUpper = ':' ↔ c = ':' := toUpper_eq_iff (by decide)
  simp only [isForbidden, hcontrol, hslash, hbackslash, hcolon]

theorem any_isForbidden_upper (s : List Char) :
    (upper s).any isForbidden = s.any isForbidden := by
  rw [upper, List.any_map]
  congr 1
  funext c
  exact isForbidden_toUpper c

/-- The normal form of a text without blanks at its ends. -/
theorem normalize?_of_tight {name : List Char} (h : Tight name) :
    normalize? (String.ofList name) =
      if name = [] ∨ name = ['.'] ∨ name = ['.', '.'] ∨ name.any isForbidden then none
      else some (String.ofList (upper name)) := by
  simp only [normalize?, String.toList_ofList, trim_of_tight h, List.isEmpty_iff]
  rfl

theorem normalize?_of_unbroken {name : List Char} (h : Unbroken name) :
    normalize? (String.ofList name) =
      if name = [] ∨ name = ['.'] ∨ name = ['.', '.'] ∨ name.any isForbidden then none
      else some (String.ofList (upper name)) :=
  normalize?_of_tight h.tight

/-- A name that is its own normal form. -/
def IsNormal (name : String) : Prop :=
  normalize? name = some name

instance : DecidablePred IsNormal := fun _ => inferInstanceAs (Decidable (_ = _))

theorem isNormal_of_normalize? {name normal : String} (h : normalize? name = some normal) :
    IsNormal normal := by
  have htrim : normalize? name = normalize? (String.ofList (trim name.toList)) := by
    simp only [normalize?, String.toList_ofList, trim_of_tight (tight_trim name.toList)]
  rw [htrim, normalize?_of_tight (tight_trim name.toList)] at h
  split at h
  case isTrue hbad => cases h
  case isFalse hgood =>
    obtain rfl := Option.some.inj h
    have hnil : upper (trim name.toList) = [] ↔ trim name.toList = [] := upper_eq_iff (by simp)
    have hmark : ¬Char.isAlpha '.' := by decide
    have hdot : upper (trim name.toList) = ['.'] ↔ trim name.toList = ['.'] :=
      upper_eq_iff (List.forall_mem_singleton.mpr hmark)
    have hdots : upper (trim name.toList) = ['.', '.'] ↔ trim name.toList = ['.', '.'] :=
      upper_eq_iff (List.forall_mem_cons.mpr ⟨hmark, List.forall_mem_singleton.mpr hmark⟩)
    rw [IsNormal, normalize?_of_tight (tight_trim name.toList).upper, if_neg, upper_upper]
    rwa [hnil, hdot, hdots, any_isForbidden_upper]

end FileName

end Cpm80
