import Cpm80.Proofs.HostCoherence

/-!
# What becomes of a change

A change that a drive on a host directory is asked to make is refused, or it is made, or, if a
file is to be deleted that the host does not remove, the drive forgets the file all the same. A
drive in memory refuses or makes it. So whatever has become of the host directory behind the
drive's back, a change that fails leaves the drive as it was, with the one exception of a deletion
that the host refuses: the file is gone from the drive and still there on the host.
-/
namespace Cpm80

/-- A name without a normal form is no fault of the host. -/
theorem Files.ne_host_of_normalize {name : String} {e : DriveError}
    (h : FileName.normalize name = .error e) (failure : HostFailure) : e ≠ .host failure := by
  rintro rfl
  rw [FileName.normalize] at h
  split at h <;> cases h

namespace DirectoryDrive

open FileName HostDirectory

/-- The name under which a change puts a file on the drive. -/
def Change.target? : Change → Option String
  | .save name _ => normalize? name
  | .delete _ => none
  | .rename _ new => normalize? new

/-- What a change can come to, by the reasons for it. -/
inductive Outcome (d : DirectoryDrive) (refusal : Option HostFailure) :
    Change → DirectoryDrive × Option DriveError → Prop
  /-- Nothing happens. A deletion is refused for the sake of its name only, not by the host. -/
  | refused {c : Change} {e : DriveError}
      (hdelete : ∀ given failure, c = .delete given → e ≠ .host failure) :
      Outcome d refusal c (d, some e)
  | saved {given name : String} {content : Array UInt8} {host : HostDirectory}
      (hname : normalize? given = some name)
      (hdone : d.host.write (d.hostName name) content = .ok host) :
      Outcome d refusal (.save given content)
        (⟨d.files.insert name content, d.hostNames.insert name (d.hostName name), host⟩, none)
  | deleted {given name path : String} {host : HostDirectory}
      (hname : normalize? given = some name) (hpath : d.hostNames.get? name = some path)
      (hdone : d.host.remove path = .ok host) :
      Outcome d refusal (.delete given) ({ d.forget name with host }, none)
  /-- The host has lost the file already, or the drive does not know where it lies. -/
  | lost {given name : String} (hname : normalize? given = some name)
      (hthere : d.files.contains name = true)
      (hgone : ∀ path, d.hostNames.get? name = some path →
        attempt refusal (d.host.remove path) = .error .missing) :
      Outcome d refusal (.delete given) (d.forget name, none)
  /-- The host does not remove the file. -/
  | forgotten {given name path : String} {failure : HostFailure}
      (hname : normalize? given = some name) (hthere : d.files.contains name = true)
      (hpath : d.hostNames.get? name = some path)
      (hfails : attempt refusal (d.host.remove path) = .error failure) :
      Outcome d refusal (.delete given) (d.forget name, some (.host failure))
  | renamed {old new source target : String} {content : Array UInt8} {host : HostDirectory}
      (hsource : normalize? old = some source) (htarget : normalize? new = some target)
      (hcontent : d.files.get? source = some content) (hfree : d.files.contains target = false)
      (hdone : d.host.rename (d.hostName source) target = .ok host) :
      Outcome d refusal (.rename old new)
        (⟨(d.files.erase source).insert target content,
          (d.hostNames.erase source).insert target target, host⟩, none)

variable (d : DirectoryDrive) (refusal : Option HostFailure)

theorem outcome_save (given : String) (content : Array UInt8) :
    Outcome d refusal (.save given content) (d.change refusal (.save given content)) := by
  rw [change]
  split
  case h_1 e hinvalid =>
    apply Outcome.refused
    intro _ _ hc
    cases hc
  case h_2 name hname =>
    dsimp only
    split
    case h_1 failure hfails =>
      apply Outcome.refused
      intro _ _ hc
      cases hc
    case h_2 host hdone =>
      exact .saved (Files.normalize_eq_ok_iff.mp hname) (attempt_eq_ok hdone)

theorem outcome_delete (given : String) :
    Outcome d refusal (.delete given) (d.change refusal (.delete given)) := by
  rw [change]
  split
  case h_1 e hinvalid =>
    apply Outcome.refused
    intro _ failure _
    exact Files.ne_host_of_normalize hinvalid failure
  case h_2 name hname =>
    have hname := Files.normalize_eq_ok_iff.mp hname
    split
    case isFalse hmissing =>
      apply Outcome.refused
      intro _ _ _ he
      cases he
    case isTrue hthere =>
      dsimp only
      split
      case h_1 hunknown =>
        apply Outcome.lost hname hthere
        intro path hpath
        rw [hunknown] at hpath
        cases hpath
      case h_2 path hpath =>
        split
        case h_1 host hdone => exact .deleted hname hpath (attempt_eq_ok hdone)
        case h_2 hgone =>
          apply Outcome.lost hname hthere
          intro other hother
          obtain rfl := Option.some.inj (hpath.symm.trans hother)
          exact hgone
        case h_3 failure hne hfails => exact .forgotten hname hthere hpath hfails

theorem outcome_rename (old new : String) :
    Outcome d refusal (.rename old new) (d.change refusal (.rename old new)) := by
  have hrefused {e : DriveError} : Outcome d refusal (.rename old new) (d, some e) := by
    apply Outcome.refused
    intro _ _ hc
    cases hc
  rw [change]
  split
  case h_1 | h_2 => exact hrefused
  case h_3 source target hsource htarget =>
    split
    case h_1 => exact hrefused
    case h_2 content hcontent =>
      split
      case isTrue => exact hrefused
      case isFalse hfree =>
        split
        case h_1 => exact hrefused
        case h_2 host hdone =>
          exact .renamed (Files.normalize_eq_ok_iff.mp hsource)
            (Files.normalize_eq_ok_iff.mp htarget) hcontent (Bool.eq_false_iff.mpr hfree)
            (attempt_eq_ok hdone)

theorem outcome (c : Change) : Outcome d refusal c (d.change refusal c) := by
  cases c with
  | save name content => exact outcome_save d refusal name content
  | delete name => exact outcome_delete d refusal name
  | rename old new => exact outcome_rename d refusal old new

end DirectoryDrive

namespace Files

open DirectoryDrive

theorem delete_of_error {f : Files} {name : String} (h : (f.delete name).2.isSome) :
    (f.delete name).1 = f := by
  rw [delete] at h ⊢
  split
  case h_1 e hinvalid => rfl
  case h_2 normal hvalid =>
    split
    case isTrue hthere => simp [hvalid, hthere] at h
    case isFalse hmissing => rfl

theorem change_of_error {f : Files} {c : Change} (h : (f.change c).2.isSome) :
    (f.change c).1 = f := by
  cases c with
  | save name content => exact save_of_error h
  | delete name => exact delete_of_error h
  | rename old new => exact rename_of_error h

/-- A drive in memory has no host to blame. -/
theorem change_ne_host (f : Files) (c : Change) (failure : HostFailure) :
    (f.change c).2 ≠ some (.host failure) := by
  cases c with
  | save name content =>
    simp only [change, save]
    split
    case h_1 e hinvalid => simpa using ne_host_of_normalize hinvalid failure
    case h_2 => simp
  | delete name =>
    simp only [change, delete]
    split
    case h_1 e hinvalid => simpa using ne_host_of_normalize hinvalid failure
    case h_2 => split <;> simp
  | rename old new =>
    simp only [change, rename]
    split
    case h_1 e hinvalid => simpa using ne_host_of_normalize hinvalid failure
    case h_2 e hold hinvalid => simpa using ne_host_of_normalize hinvalid failure
    case h_3 =>
      split
      case isTrue => simp
      case isFalse => split <;> simp

end Files

namespace Drive

open DirectoryDrive FileName

/-- A change that fails leaves the drive as it was, its files, their host names and the host
directory, whatever state these are in and whatever the host refuses; unless it is a deletion
that the host does not carry out. Then the drive has forgotten the file, and the host directory
is as it was. -/
theorem failed_change_keeps_drive (d : Drive) (refusal : Option HostFailure) (c : Change)
    {e : DriveError} (h : (d.change refusal c).2 = some e) :
    ((∀ given failure, c = .delete given → e ≠ .host failure) → (d.change refusal c).1 = d) ∧
      ∀ given failure, c = .delete given → e = .host failure →
        ∃ b name, d = directory b ∧ normalize? given = some name ∧ name ∈ d.list ∧
          (d.change refusal c).1 = directory (b.forget name) := by
  cases d with
  | memory files =>
    have hfails : (files.change c).2 = some e := h
    constructor
    · intro _
      exact congrArg memory (Files.change_of_error (Option.isSome_of_eq_some hfails))
    · rintro given failure - rfl
      exact absurd hfails (files.change_ne_host c failure)
  | directory b =>
    have houtcome := b.outcome refusal c
    rw [change] at h ⊢
    generalize b.change refusal c = result at h houtcome ⊢
    cases houtcome with
    | refused hdelete =>
      obtain rfl := Option.some.inj h
      constructor
      · intro _
        rfl
      · intro given failure hc he
        exact absurd he (hdelete given failure hc)
    | @forgotten given name path failure hname hthere hpath hfails =>
      obtain rfl := Option.some.inj h
      constructor
      · intro hother
        exact absurd rfl (hother given failure rfl)
      · rintro given failure hc -
        cases hc
        exact ⟨b, name, rfl, hname, SortedMap.mem_keys_iff.mpr hthere, rfl⟩
    | saved | deleted | lost | renamed => cases h

/-- A drive with two files. A directory has come into the place of the first one, and another
one has the name that the second one is to get. -/
def overtaken : Drive :=
  directory { DirectoryDrive.ofHost ⟨.ofList [("a.txt", .file #[1]), ("b.txt", .file #[2])]⟩ with
    host := ⟨.ofList [("C", .directory), ("a.txt", .directory), ("b.txt", .file #[2])]⟩ }

/-- The host refuses to rename a file over a directory, and the drive keeps the old name. -/
theorem failed_change_keeps_drive_overtaken :
    (overtaken.rename "B.TXT" "C").2 = some (.host .isADirectory) ∧
      (overtaken.rename "B.TXT" "C").1 = overtaken := by
  have hfails : (overtaken.change none (.rename "B.TXT" "C")).2 = some (.host .isADirectory) := by
    decide +kernel
  exact ⟨hfails, (failed_change_keeps_drive overtaken none _ hfails).1 fun _ _ hc => by cases hc⟩

/-- The host refuses to remove a directory as a file, and yet the drive does not list the file
any more. -/
theorem exists_failed_delete_list_ne :
    ∃ (d : Drive) (failure : HostFailure), (d.delete "A.TXT").2 = some (.host failure) ∧
      d.list = ["A.TXT", "B.TXT"] ∧ (d.delete "A.TXT").1.list = ["B.TXT"] :=
  ⟨overtaken, .isADirectory, by decide +kernel, by decide +kernel, by decide +kernel⟩

end Drive

end Cpm80
