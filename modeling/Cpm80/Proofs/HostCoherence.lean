import Cpm80.Proofs.DriveOperations
import Mathlib.Data.List.Sort
import Mathlib.Data.List.TakeWhile

/-!
# Drives on a host directory

A drive on a host directory keeps three records: the files, the host name of each, and the host
directory itself. They stay coherent, also when the host refuses what it is asked for: every
file on the drive lies in the directory under its host name, of which its name is the normal
form. So the host names of different files differ, no change to one file touches another, and
nothing outside the directory proper is ever changed.
-/
namespace Cpm80

namespace SortedMap

variable {α β γ : Type} [LT α] [DecidableEq α] [KeyOrder α]

theorem get?_of_mem {m : SortedMap α β} {k : α} {x : β} (h : (k, x) ∈ m.entries) :
    m.get? k = some x := by
  obtain ⟨entries, hascending⟩ := m
  induction entries with
  | nil => cases h
  | cons e rest ih =>
    obtain ⟨hfirst, hrest⟩ := List.pairwise_cons.mp hascending
    rcases List.mem_cons.mp h with rfl | h
    · exact if_pos rfl
    · have hlt : e.1 < k := hfirst (k, x) h
      have hne : e.1 ≠ k := fun heq => KeyOrder.irrefl k (heq ▸ hlt)
      exact (if_neg hne).trans (ih hrest h)

/-- Maps that know the same keys list the same keys. -/
theorem keys_eq_of_contains {m : SortedMap α β} {n : SortedMap α γ}
    (h : ∀ k, m.contains k = n.contains k) : m.keys = n.keys := by
  have : Std.Irrefl (fun a b : α => a < b) := ⟨KeyOrder.irrefl⟩
  have : Std.Antisymm (fun a b : α => a < b) :=
    ⟨fun a b hab hba => absurd (KeyOrder.trans hab hba) (KeyOrder.irrefl a)⟩
  apply List.Pairwise.eq_of_mem_iff m.ascending_keys n.ascending_keys
  intro k
  rw [mem_keys_iff, mem_keys_iff, h]

end SortedMap

namespace HostDirectory

variable {d e : HostDirectory} {path : String} {content : Array UInt8}

theorem get?_of_mem_files (h : (path, content) ∈ d.files) :
    d.get? path = some (.file content) := by
  obtain ⟨⟨other, entry⟩, hmem, hentry⟩ := List.mem_filterMap.mp h
  cases entry with
  | directory => cases hentry
  | file found =>
    dsimp only at hentry
    split at hentry
    case isTrue => cases hentry
    case isFalse =>
      obtain ⟨rfl, rfl⟩ := Prod.mk.inj (Option.some.inj hentry)
      exact SortedMap.get?_of_mem hmem

theorem get?_of_write (h : d.write path content = .ok e) (p : String) :
    e.get? p = if path = p then some (.file content) else d.get? p := by
  unfold write at h
  split at h
  · cases h
  split at h
  · cases h
  · obtain rfl := Except.ok.inj h
    exact SortedMap.get?_insert _ _ _ _

theorem get?_of_remove (h : d.remove path = .ok e) (p : String) :
    e.get? p = if path = p then none else d.get? p := by
  unfold remove at h
  split at h
  case h_1 =>
    obtain rfl := Except.ok.inj h
    exact SortedMap.get?_erase _ _ _
  case h_2 | h_3 => cases h

theorem get?_of_rename {new : String} (hfile : d.get? path = some (.file content))
    (h : d.rename path new = .ok e) (p : String) :
    e.get? p = if new = p then some (.file content)
      else if path = p then none else d.get? p := by
  have hmoved : (if isTooLong new then .error HostFailure.nameTooLong
      else .ok ⟨(d.entries.erase path).insert new (.file content)⟩) = Except.ok e := by
    unfold rename at h
    rw [hfile] at h
    rcases hnew : d.get? new with _ | (found | _)
    case some.directory =>
      rw [hnew] at h
      cases h
    all_goals
      rw [hnew] at h
      exact h
  split at hmoved
  · cases hmoved
  · obtain rfl := Except.ok.inj hmoved
    rw [HostDirectory.get?, SortedMap.get?_insert, SortedMap.get?_erase]
    rfl

/-- A path that leads to something directly in the directory. -/
def IsChild (path : String) : Prop :=
  path ≠ "" ∧ path ≠ "." ∧ path ≠ ".." ∧ '/' ∉ path.toList

end HostDirectory

namespace FileName

theorem mem_trim {c : Char} {s : List Char} (hc : Text.isBlank c = false) (h : c ∈ s) :
    c ∈ Text.trim s := by
  have hdrop {t : List Char} (ht : c ∈ t) : c ∈ t.dropWhile Text.isBlank := by
    rw [← List.takeWhile_append_dropWhile (p := Text.isBlank) (l := t)] at ht
    rcases List.mem_append.mp ht with htake | hdrop
    · rw [List.mem_takeWhile_imp htake] at hc
      cases hc
    · exact hdrop
  exact List.mem_reverse.mpr (hdrop (List.mem_reverse.mpr (hdrop h)))

/-- What has a normal form is the name of something in a directory. -/
theorem isChild_of_normalize? {path name : String} (h : normalize? path = some name) :
    HostDirectory.IsChild path := by
  refine ⟨?_, ?_, ?_, fun hslash => ?_⟩
  · rintro rfl
    cases h
  · rintro rfl
    cases h
  · rintro rfl
    cases h
  · have hmem : '/' ∈ Text.trim path.toList := mem_trim (by decide) hslash
    unfold normalize? at h
    dsimp only at h
    rw [if_pos] at h
    · cases h
    · exact .inr (.inr (.inr (List.any_eq_true.mpr ⟨'/', hmem, by decide⟩)))

end FileName

namespace DirectoryDrive

open FileName HostDirectory

/-- The drive after changes one after another, each with what the host has against it. -/
def afterChanges (d : DirectoryDrive) (changes : List (Change × Option HostFailure)) :
    DirectoryDrive :=
  changes.foldl (fun d c => (d.change c.2 c.1).1) d

/-! ## Coherence -/

/-- The records of a drive agree. -/
structure Coherent (d : DirectoryDrive) : Prop where
  contains_eq : ∀ name, d.hostNames.contains name = d.files.contains name
  normalize_path : ∀ {name path}, d.hostNames.get? name = some path →
    normalize? path = some name
  held : ∀ {name path content}, d.hostNames.get? name = some path →
    d.files.get? name = some content → d.host.get? path = some (.file content)

variable {d : DirectoryDrive} {host : HostDirectory} {name other path : String}
  {content : Array UInt8}

namespace Coherent

theorem get?_path (h : d.Coherent) (hname : d.files.get? name = some content) :
    ∃ path, d.hostNames.get? name = some path ∧ d.host.get? path = some (.file content) := by
  have hknown : d.hostNames.contains name = true := by
    rw [h.contains_eq, SortedMap.contains, hname, Option.isSome_some]
  obtain ⟨path, hpath⟩ := Option.isSome_iff_exists.mp hknown
  exact ⟨path, hpath, h.held hpath hname⟩

theorem get?_file (h : d.Coherent) (hpath : d.hostNames.get? name = some path) :
    ∃ content, d.files.get? name = some content ∧ d.host.get? path = some (.file content) := by
  have hthere : d.files.contains name = true := by
    rw [← h.contains_eq, SortedMap.contains, hpath, Option.isSome_some]
  obtain ⟨content, hcontent⟩ := Option.isSome_iff_exists.mp hthere
  exact ⟨content, hcontent, h.held hpath hcontent⟩

theorem get?_hostNames_eq_none (h : d.Coherent) (hnone : d.files.get? name = none) :
    d.hostNames.get? name = none := by
  have hsame := h.contains_eq name
  rwa [SortedMap.contains, SortedMap.contains, hnone, Option.isSome_none,
    Option.isSome_eq_false_iff, Option.isNone_iff_eq_none] at hsame

theorem path_ne (h : d.Coherent) (hother : d.hostNames.get? other = some path)
    {named : String} (hnamed : normalize? named = some name) (hne : name ≠ other) :
    path ≠ named := by
  rintro rfl
  exact hne (Option.some.inj (hnamed.symm.trans (h.normalize_path hother)))

/-- Takes up a file under a host name that its name is the normal form of. -/
theorem insert (h : d.Coherent) (hpath : normalize? path = some name)
    (hfile : host.get? path = some (.file content))
    (hkept : ∀ p, p ≠ path → host.get? p = d.host.get? p) :
    Coherent ⟨d.files.insert name content, d.hostNames.insert name path, host⟩ where
  contains_eq other := by
    have hsame := h.contains_eq other
    simp only [SortedMap.contains, SortedMap.get?_insert] at hsame ⊢
    split
    · rfl
    · exact hsame
  normalize_path {other p} hp := by
    rw [SortedMap.get?_insert] at hp
    split at hp
    case isTrue heq =>
      obtain rfl := Option.some.inj hp
      exact heq ▸ hpath
    case isFalse => exact h.normalize_path hp
  held {other p held} hp hheld := by
    rw [SortedMap.get?_insert] at hp hheld
    split at hp
    case isTrue heq =>
      rw [if_pos heq] at hheld
      obtain rfl := Option.some.inj hp
      obtain rfl := Option.some.inj hheld
      exact hfile
    case isFalse hne =>
      rw [if_neg hne] at hheld
      exact (hkept p (h.path_ne hp hpath hne)).trans (h.held hp hheld)

/-- Forgets a file, whatever becomes of it on the host. -/
theorem erase (h : d.Coherent) (hpath : d.hostNames.get? name = some path)
    (hkept : ∀ p, p ≠ path → host.get? p = d.host.get? p) :
    Coherent ⟨d.files.erase name, d.hostNames.erase name, host⟩ where
  contains_eq other := by
    have hsame := h.contains_eq other
    simp only [SortedMap.contains, SortedMap.get?_erase] at hsame ⊢
    split
    · rfl
    · exact hsame
  normalize_path {other p} hp := by
    rw [SortedMap.get?_erase] at hp
    split at hp
    case isTrue => cases hp
    case isFalse => exact h.normalize_path hp
  held {other p held} hp hheld := by
    rw [SortedMap.get?_erase] at hp hheld
    split at hp
    case isTrue => cases hp
    case isFalse hne =>
      rw [if_neg hne] at hheld
      exact (hkept p (h.path_ne hp (h.normalize_path hpath) hne)).trans (h.held hp hheld)

/-- Where a file lies or would be put, its name is the normal form of the host name. -/
theorem normalize_hostName (h : d.Coherent) (hname : IsNormal name) :
    normalize? (d.hostName name) = some name := by
  rw [hostName]
  cases hpath : d.hostNames.get? name with
  | none => exact hname
  | some path => exact h.normalize_path hpath

end Coherent

theorem coherent_empty (host : HostDirectory) : Coherent ⟨.empty, .empty, host⟩ where
  contains_eq _ := rfl
  normalize_path h := by cases h
  held h := by cases h

/-- A file of the host is taken up as it is. -/
theorem Coherent.takeIn (h : d.Coherent) (hfile : d.host.get? path = some (.file content)) :
    (d.takeIn (path, content)).Coherent ∧ (d.takeIn (path, content)).host = d.host := by
  unfold DirectoryDrive.takeIn
  split
  case h_2 => exact ⟨h, rfl⟩
  case h_1 name hname =>
    split
    case isFalse => exact ⟨h, rfl⟩
    case isTrue => exact ⟨h.insert hname hfile fun _ _ => rfl, rfl⟩

theorem Coherent.foldl_takeIn (h : d.Coherent) {listing : List (String × Array UInt8)}
    (hlisting : ∀ file ∈ listing, d.host.get? file.1 = some (.file file.2)) :
    (listing.foldl DirectoryDrive.takeIn d).Coherent ∧
      (listing.foldl DirectoryDrive.takeIn d).host = d.host := by
  induction listing generalizing d with
  | nil => exact ⟨h, rfl⟩
  | cons file rest ih =>
    obtain ⟨hfirst, hrest⟩ := List.forall_mem_cons.mp hlisting
    obtain ⟨htaken, hhost⟩ := h.takeIn hfirst
    have hall := ih htaken (hhost ▸ hrest)
    exact ⟨hall.1, hall.2.trans hhost⟩

/-- A drive is opened with its records in agreement and the host as it was. -/
theorem coherent_opened {listing : List (String × Array UInt8)}
    (hlisting : listing.Perm host.files) :
    (opened host listing).Coherent ∧ (opened host listing).host = host := by
  apply (coherent_empty host).foldl_takeIn
  intro file hfile
  exact get?_of_mem_files (hlisting.mem_iff.mp hfile)

/-- What a change leads to: records that agree, and the host as it was but for what lies directly
in the directory. -/
structure Settled (d e : DirectoryDrive) : Prop where
  coherent : e.Coherent
  kept : ∀ path, ¬IsChild path → e.host.get? path = d.host.get? path

theorem Coherent.settled (h : d.Coherent) : Settled d d :=
  ⟨h, fun _ _ => rfl⟩

theorem attempt_eq_ok {refusal : Option HostFailure} {done : Except HostFailure HostDirectory}
    (h : attempt refusal done = .ok host) : done = .ok host := by
  cases refusal with
  | none => exact h
  | some e => cases h

theorem isNormal_of_normalize {given : String} (h : FileName.normalize given = .ok name) :
    IsNormal name :=
  isNormal_of_normalize? (Files.normalize_eq_ok_iff.mp h)

/-- A path that is no name of something in the directory is not the host name of a file. -/
theorem ne_of_not_isChild {p : String} (hp : ¬IsChild p) (h : normalize? path = some name) :
    path ≠ p := by
  rintro rfl
  exact hp (isChild_of_normalize? h)

theorem Coherent.change_save (h : d.Coherent) (refusal : Option HostFailure) (given : String)
    (content : Array UInt8) : Settled d (d.change refusal (.save given content)).1 := by
  rw [change]
  split
  case h_1 => exact h.settled
  case h_2 name hname =>
    have hpath := h.normalize_hostName (isNormal_of_normalize hname)
    dsimp only
    split
    case h_1 => exact h.settled
    case h_2 host hdone =>
      have hget := get?_of_write (attempt_eq_ok hdone)
      refine ⟨h.insert hpath ?_ fun p hne => ?_, fun p hp => ?_⟩
      · rw [hget, if_pos rfl]
      · rw [hget, if_neg hne.symm]
      · exact (hget p).trans (if_neg (ne_of_not_isChild hp hpath))

theorem Coherent.change_delete (h : d.Coherent) (refusal : Option HostFailure) (given : String) :
    Settled d (d.change refusal (.delete given)).1 := by
  rw [change]
  split
  case h_1 => exact h.settled
  case h_2 name hname =>
    split
    case isFalse => exact h.settled
    case isTrue hthere =>
      dsimp only
      split
      case h_1 hnone =>
        have hknown := (h.contains_eq name).trans hthere
        rw [SortedMap.contains, hnone] at hknown
        cases hknown
      case h_2 path hpath =>
        split
        case h_1 host hdone =>
          have hget := get?_of_remove (attempt_eq_ok hdone)
          refine ⟨h.erase hpath fun p hne => ?_, fun p hp => ?_⟩
          · rw [hget, if_neg hne.symm]
          · exact (hget p).trans (if_neg (ne_of_not_isChild hp (h.normalize_path hpath)))
        case h_2 | h_3 => exact ⟨h.erase hpath fun _ _ => rfl, fun _ _ => rfl⟩

theorem Coherent.change_rename (h : d.Coherent) (refusal : Option HostFailure)
    (old new : String) : Settled d (d.change refusal (.rename old new)).1 := by
  rw [change]
  split
  case h_1 | h_2 => exact h.settled
  case h_3 source target hsource htarget =>
    split
    case h_1 => exact h.settled
    case h_2 content hcontent =>
      split
      case isTrue => exact h.settled
      case isFalse hfree =>
        split
        case h_1 => exact h.settled
        case h_2 host hdone =>
          obtain ⟨path, hpath, hfile⟩ := h.get?_path hcontent
          have hnormal := isNormal_of_normalize htarget
          have hhostName : d.hostName source = path := by
            rw [hostName, hpath, Option.getD_some]
          have hget := get?_of_rename (hhostName ▸ hfile) (attempt_eq_ok hdone)
          rw [hhostName] at hget
          -- the file is forgotten under its old name and taken up under its new one
          have hforgotten : Coherent ⟨d.files.erase source, d.hostNames.erase source,
              ⟨d.host.entries.erase path⟩⟩ :=
            h.erase hpath fun p hne => (SortedMap.get?_erase _ _ _).trans (if_neg hne.symm)
          refine ⟨hforgotten.insert hnormal ?_ fun p hne => ?_, fun p hp => ?_⟩
          · rw [hget, if_pos rfl]
          · rw [hget, if_neg hne.symm]
            exact (SortedMap.get?_erase _ _ _).symm
          · rw [hget, if_neg (ne_of_not_isChild hp hnormal),
              if_neg (ne_of_not_isChild hp (h.normalize_path hpath))]

theorem Coherent.change (h : d.Coherent) (refusal : Option HostFailure) (c : Change) :
    Settled d (d.change refusal c).1 := by
  cases c with
  | save name content => exact h.change_save refusal name content
  | delete name => exact h.change_delete refusal name
  | rename old new => exact h.change_rename refusal old new

theorem Coherent.afterChanges (h : d.Coherent) (changes : List (Change × Option HostFailure)) :
    Settled d (d.afterChanges changes) := by
  induction changes generalizing d with
  | nil => exact h.settled
  | cons c rest ih =>
    have hfirst := h.change c.2 c.1
    have hrest := ih hfirst.coherent
    exact ⟨hrest.coherent, fun p hp => (hrest.kept p hp).trans (hfirst.kept p hp)⟩

/-- Whatever is saved, deleted and renamed on a drive, and whatever of it the host refuses: the
drive knows the host names of exactly the files it lists; each is the name of something in the
directory, the name on the drive is its normal form, and what it names is a file with the
content that the drive shows; so different files have different host names. Nothing but what
lies directly in the directory is ever created, written or removed. -/
theorem coherent_with_host {listing : List (String × Array UInt8)}
    (hlisting : listing.Perm host.files) (changes : List (Change × Option HostFailure)) :
    let d := (opened host listing).afterChanges changes
    d.hostNames.keys = (Drive.directory d).list ∧
      (∀ name ∈ (Drive.directory d).list, ∃ path content,
        d.hostNames.get? name = some path ∧ IsChild path ∧ normalize? path = some name ∧
          (Drive.directory d).get? name = some content ∧
          d.host.get? path = some (.file content)) ∧
      (∀ name other path, d.hostNames.get? name = some path →
        d.hostNames.get? other = some path → name = other) ∧
      ∀ path, ¬IsChild path → d.host.get? path = host.get? path := by
  intro d
  obtain ⟨hopened, hhost⟩ := coherent_opened hlisting
  obtain ⟨hcoherent, hkept⟩ := hopened.afterChanges changes
  refine ⟨SortedMap.keys_eq_of_contains hcoherent.contains_eq, fun name hname => ?_, ?_, ?_⟩
  · have hthere : d.files.contains name = true := SortedMap.mem_keys_iff.mp hname
    obtain ⟨content, hcontent⟩ := Option.isSome_iff_exists.mp hthere
    obtain ⟨path, hpath, hfile⟩ := hcoherent.get?_path hcontent
    have hnormal := hcoherent.normalize_path hpath
    refine ⟨path, content, hpath, isChild_of_normalize? hnormal, hnormal, ?_, hfile⟩
    have hname : normalize? name = some name := isNormal_of_normalize? hnormal
    rw [Drive.get?, hname]
    exact hcontent
  · intro name other path hname hother
    exact Option.some.inj ((hcoherent.normalize_path hname).symm.trans
      (hcoherent.normalize_path hother))
  · intro path hpath
    rw [hkept path hpath, hhost]

/-- Two files whose names have one normal form, and one in a directory. -/
def twins : HostDirectory :=
  ⟨.ofList [("A.TXT", .file #[1]), ("a.txt", .file #[2]), ("sub", .directory),
    ("sub/a.txt", .file #[3])]⟩

/-- The host refuses the first change; the last one finds a file that was out of sight. -/
def twinChanges : List (Change × Option HostFailure) :=
  [(.save "a.txt" #[4], some .notADirectory), (.rename "A.TXT" " b.txt", none),
    (.save "a.txt" #[5], none)]

theorem coherent_with_host_twins :
    let d := (opened twins twins.files).afterChanges twinChanges
    twins.files.Perm twins.files ∧ (Drive.directory d).list = ["A.TXT", "B.TXT"] ∧
      d.hostNames.keys = (Drive.directory d).list ∧
      d.host.get? "B.TXT" = some (.file #[2]) ∧
      ∀ path, ¬IsChild path → d.host.get? path = twins.get? path := by
  obtain ⟨hkeys, -, -, hkept⟩ := coherent_with_host (List.Perm.refl twins.files) twinChanges
  exact ⟨List.Perm.refl _, by decide +kernel, hkeys, by decide +kernel, hkept⟩

end DirectoryDrive

end Cpm80
