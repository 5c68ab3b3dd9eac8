import Cpm80.Proofs.HostChanges
import Cpm80.Proofs.PaddedNames

/-!
# Short names

A name that fits the padded form is short, and remains so in its normal form. A drive that is
opened on a host directory takes up nothing but short names, and a change adds at most the name
that it is given: a drive with short names only gets another one only by a change that names it.
-/
namespace Cpm80

namespace Text

/-- A text with a mark in it is trimmed in front of the mark and behind it. -/
theorem trim_append_cons {mark : Char} (hmark : isBlank mark = false) (base rest : List Char) :
    trim (base ++ mark :: rest) = trimStart base ++ mark :: trimEnd rest := by
  have hstart : trimStart (base ++ mark :: rest) = trimStart base ++ mark :: rest := by
    rw [trimStart, List.dropWhile_append, List.dropWhile_cons_of_neg (by simp [hmark])]
    split
    case isTrue hblank => rw [trimStart, List.isEmpty_iff.mp hblank, List.nil_append]
    case isFalse => rfl
  have hend : trimEnd (trimStart base ++ mark :: rest) = trimStart base ++ mark :: trimEnd rest := by
    rw [trimEnd, List.reverse_append, List.reverse_cons, List.append_assoc, List.dropWhile_append,
      List.singleton_append, List.dropWhile_cons_of_neg (by simp [hmark])]
    split
    case isTrue hblank => simp [trimEnd, List.isEmpty_iff.mp hblank]
    case isFalse => simp [trimEnd]
  rw [trim, hstart, hend]

end Text

namespace FileName

open Text

/-! ## Names -/

theorem eq_of_normalize? {name normal : String} (h : normalize? name = some normal) :
    normal = String.ofList (upper (trim name.toList)) := by
  simp only [normalize?] at h
  split at h
  · cases h
  · exact (Option.some.inj h).symm

theorem isPlain_toUpper (c : Char) : isPlain c.toUpper = isPlain c := by
  have hstar : c.toUpper = '*' ↔ c = '*' := toUpper_eq_iff (by decide)
  have hmark : c.toUpper = '?' ↔ c = '?' := toUpper_eq_iff (by decide)
  have hrange : (0x21 ≤ c.toUpper.toNat ∧ c.toUpper.toNat ≤ 0x7E) ↔
      0x21 ≤ c.toNat ∧ c.toNat ≤ 0x7E := by
    rw [toNat_toUpper]
    split <;> omega
  rw [Bool.eq_iff_iff]
  simp only [isPlain, Bool.and_eq_true, decide_eq_true_eq, ne_eq, hrange, hstar, hmark]

/-- The letters of a name may be raised. -/
theorem isShort_upper (s : List Char) :
    isShort (String.ofList (upper s)) = isShort (String.ofList s) := by
  have hdot : ∀ c : Char, c.toUpper = '.' ↔ c = '.' := fun c => toUpper_eq_iff (by decide)
  have hsame : (fun c : Char => decide (c ≠ '.')) ∘ Char.toUpper = fun c => decide (c ≠ '.') := by
    funext c
    simp [hdot]
  have hcontains (t : List Char) : (upper t).contains '.' = t.contains '.' := by
    rw [Bool.eq_iff_iff, List.contains_iff_mem, List.contains_iff_mem, mem_upper_iff (by decide)]
  have hplain : isPlain ∘ Char.toUpper = isPlain := funext isPlain_toUpper
  simp only [isShort, String.toList_ofList]
  rw [upper, List.takeWhile_map, List.dropWhile_map, ← List.map_drop, List.all_map, hsame, hplain,
    ← upper, ← upper, hcontains]
  simp [upper]

theorem isPlain_of_isShort {name : String} (h : isShort name = true) :
    ∀ c ∈ name.toList, isPlain c = true := by
  simp only [isShort, Bool.and_eq_true, List.all_eq_true] at h
  exact h.2

theorem unbroken_of_isPlain {s : List Char} (h : ∀ c ∈ s, isPlain c = true) : Unbroken s := by
  apply Printable.unbroken
  intro c hc
  have hplain := h c hc
  simp only [isPlain, Bool.and_eq_true, decide_eq_true_eq] at hplain
  exact hplain.1.1

/-- A short name stays short in its normal form. -/
theorem isShort_of_normalize? {name normal : String} (h : isShort name = true)
    (hnormal : normalize? name = some normal) : isShort normal = true := by
  have hunbroken : Unbroken name.toList := unbroken_of_isPlain (isPlain_of_isShort h)
  rw [eq_of_normalize? hnormal, trim_of_tight hunbroken.tight, isShort_upper, String.ofList_toList]
  exact h

/-- What makes a name with a dot in it short. -/
theorem isShort_append_dot {base extension : List Char} (hbase : '.' ∉ base) :
    isShort (String.ofList (base ++ '.' :: extension)) = true ↔
      base ≠ [] ∧ base.length ≤ 8 ∧ extension.length ≤ 3 ∧ '.' ∉ extension ∧
        (∀ c ∈ base, isPlain c = true) ∧ ∀ c ∈ extension, isPlain c = true := by
  have hall : ∀ c ∈ base, decide (c ≠ '.') = true := by
    intro c hc
    rw [decide_eq_true_eq]
    rintro rfl
    exact hbase hc
  have htake : (base ++ '.' :: extension).takeWhile (· ≠ '.') = base := by
    rw [List.takeWhile_append_of_pos hall, List.takeWhile_cons_of_neg (by simp), List.append_nil]
  have hdrop : (base ++ '.' :: extension).dropWhile (· ≠ '.') = '.' :: extension := by
    rw [List.dropWhile_append_of_pos hall, List.dropWhile_cons_of_neg (by simp)]
  have hdot : isPlain '.' = true := by decide
  simp only [isShort, String.toList_ofList, htake, hdrop]
  simp [hdot, and_assoc]

/-- What a name comes to on a drive is short, if it comes to anything. -/
def Fits (name : String) : Prop :=
  ∀ normal, normalize? name = some normal → isShort normal = true

instance (name : String) : Decidable (Fits name) :=
  inferInstanceAs (Decidable (∀ normal ∈ normalize? name, isShort normal = true))

theorem fits_of_isShort {name : String} (h : isShort name = true) : Fits name :=
  fun _ hnormal => isShort_of_normalize? h hnormal

/-- With a short name goes every other one of the same base and a short extension. -/
theorem fits_of_same_base {base rest extension : List Char} {normal : String}
    (hbase : '.' ∉ base) (hnormal : normalize? (String.ofList (base ++ '.' :: rest)) = some normal)
    (hshort : isShort normal = true) (hlength : extension.length ≤ 3)
    (hundotted : '.' ∉ extension) (hplain : ∀ c ∈ extension, isPlain c = true) :
    Fits (String.ofList (base ++ '.' :: extension)) := by
  have hstart : '.' ∉ trimStart base := fun h => hbase ((List.dropWhile_suffix isBlank).subset h)
  have hdot : isBlank '.' = false := by decide
  rw [eq_of_normalize? hnormal, isShort_upper, String.toList_ofList, trim_append_cons hdot,
    isShort_append_dot hstart] at hshort
  obtain ⟨hne, hlengthBase, -, -, hplainBase, -⟩ := hshort
  intro other hother
  rw [eq_of_normalize? hother, isShort_upper, String.toList_ofList, trim_append_cons hdot,
    trimEnd_of_unbroken (unbroken_of_isPlain hplain), isShort_append_dot hstart]
  exact ⟨hne, hlengthBase, hlength, hundotted, hplainBase, hplain⟩

end FileName

/-! ## Drives -/

/-- The name under which a change puts a file on the drive is short. -/
def DirectoryDrive.Change.Fits (c : Change) : Prop :=
  ∀ name, c.target? = some name → FileName.isShort name = true

instance (c : DirectoryDrive.Change) : Decidable c.Fits :=
  inferInstanceAs (Decidable (∀ name ∈ c.target?, FileName.isShort name = true))

namespace Files

open FileName DirectoryDrive

variable {f : Files} {name : String}

/-- Every file lies under a short name. -/
def Short (f : Files) : Prop :=
  ∀ name ∈ f.keys, isShort name = true

theorem short_empty : Short .empty := by
  intro name hname
  cases hname

theorem Short.insert (h : f.Short) (hname : isShort name = true) (content : Array UInt8) :
    Short (f.insert name content) := by
  intro other hother
  rw [SortedMap.mem_keys_iff, SortedMap.contains, SortedMap.get?_insert] at hother
  split at hother
  case isTrue heq => exact heq ▸ hname
  case isFalse hne => exact h other (SortedMap.mem_keys_iff.mpr hother)

theorem Short.erase (h : f.Short) (name : String) : Short (f.erase name) := by
  intro other hother
  rw [SortedMap.mem_keys_iff, SortedMap.contains, SortedMap.get?_erase] at hother
  split at hother
  case isTrue heq => cases hother
  case isFalse hne => exact h other (SortedMap.mem_keys_iff.mpr hother)

theorem Short.get?_eq_none (h : f.Short) (hname : ¬isShort name = true) : f.get? name = none := by
  rw [← Option.isNone_iff_eq_none, ← Option.isSome_eq_false_iff, Bool.eq_false_iff]
  intro hthere
  exact hname (h name (SortedMap.mem_keys_iff.mpr hthere))

theorem Short.change (h : f.Short) {c : Change} (hc : c.Fits) : Short (f.change c).1 := by
  cases c with
  | save name content =>
    simp only [Files.change, Files.save]
    split
    case h_1 => exact h
    case h_2 normal hnormal => exact h.insert (hc normal (normalize_eq_ok_iff.mp hnormal)) content
  | delete name =>
    simp only [Files.change, Files.delete]
    split
    case h_1 => exact h
    case h_2 =>
      split
      case isTrue => exact h.erase _
      case isFalse => exact h
  | rename old new =>
    simp only [Files.change, Files.rename]
    split
    case h_1 | h_2 => exact h
    case h_3 source target hsource htarget =>
      split
      case isTrue => exact h
      case isFalse =>
        split
        case h_1 => exact h
        case h_2 content _ =>
          exact (h.erase source).insert (hc target (normalize_eq_ok_iff.mp htarget)) content

end Files

namespace DirectoryDrive

variable {d : DirectoryDrive}

theorem short_change (h : d.files.Short) {c : Change} (hc : c.Fits)
    (refusal : Option HostFailure) : (d.change refusal c).1.files.Short := by
  have houtcome := d.outcome refusal c
  generalize d.change refusal c = result at houtcome
  cases houtcome with
  | refused => exact h
  | saved hname hdone => exact h.insert (hc _ hname) _
  | deleted | lost | forgotten => exact h.erase _
  | renamed hsource htarget => exact (h.erase _).insert (hc _ htarget) _

theorem short_afterChanges (h : d.files.Short) {changes : List (Change × Option HostFailure)}
    (hchanges : ∀ c ∈ changes, c.1.Fits) : (d.afterChanges changes).files.Short := by
  induction changes generalizing d with
  | nil => exact h
  | cons c rest ih =>
    obtain ⟨hfirst, hrest⟩ := List.forall_mem_cons.mp hchanges
    exact ih (short_change h hfirst c.2) hrest

theorem short_takeIn (h : d.files.Short) (file : String × Array UInt8) :
    (d.takeIn file).files.Short := by
  rw [takeIn]
  split
  case h_1 name hname =>
    split
    case isTrue hshort => exact h.insert hshort _
    case isFalse => exact h
  case h_2 => exact h

/-- A drive is opened with short names only. -/
theorem short_opened (host : HostDirectory) (listing : List (String × Array UInt8)) :
    (opened host listing).files.Short := by
  suffices ∀ d : DirectoryDrive, d.files.Short → (listing.foldl takeIn d).files.Short from
    this _ Files.short_empty
  induction listing with
  | nil => exact fun _ h => h
  | cons file rest ih =>
    intro d h
    exact ih _ (short_takeIn h file)

end DirectoryDrive

namespace Drive

open DirectoryDrive

/-- Every name on the drive is short. -/
def Short (d : Drive) : Prop :=
  ∀ name ∈ d.list, FileName.isShort name = true

instance (d : Drive) : Decidable d.Short :=
  inferInstanceAs (Decidable (∀ name ∈ d.list, FileName.isShort name = true))

theorem Short.change {d : Drive} (h : d.Short) {c : Change} (hc : c.Fits)
    (refusal : Option HostFailure) : (d.change refusal c).1.Short := by
  cases d with
  | memory files => exact Files.Short.change h hc
  | directory d => exact short_change h hc refusal

theorem Short.save {d : Drive} (h : d.Short) {name : String} (hname : FileName.Fits name)
    (content : Array UInt8) : (d.save name content).1.Short :=
  h.change (c := .save name content) hname none

theorem Short.delete {d : Drive} (h : d.Short) (name : String) : (d.delete name).1.Short :=
  h.change (c := .delete name) (fun _ htarget => by cases htarget) none

theorem Short.rename {d : Drive} (h : d.Short) {new : String} (hnew : FileName.Fits new)
    (old : String) : (d.rename old new).1.Short :=
  h.change (c := .rename old new) hnew none

/-- What is left of a drive, whatever it answers. -/
theorem Short.of_eq {answered : Drive × Option DriveError} {left : Drive}
    {e : Option DriveError} (h : answered.1.Short) (heq : answered = (left, e)) : left.Short := by
  rw [heq] at h
  exact h

/-- A file that is found lies under a short name. -/
theorem Short.fits_of_get? {d : Drive} (h : d.Short) {name : String} {content : Array UInt8}
    (hfound : d.get? name = some content) : FileName.Fits name := by
  intro normal hnormal
  rw [get?, hnormal] at hfound
  apply h normal
  apply SortedMap.mem_keys_iff.mpr
  exact Option.isSome_of_eq_some hfound

end Drive

end Cpm80
