import Cpm80.Proofs.ShortNames

/-!
# What a drive leaves alone

A drive that is opened on a directory takes up files only, and only those with short names. The
rest is out of its sight: sub-directories with what lies in them, files whose names are not short,
and of several files of one name all but one. Whatever is done on the drive, it touches nothing of
this, with one exception. A new file lies under the name that it has on the drive, and the host
replaces the file that it finds there; so a file out of sight is lost when its own name is in
normal form and a file is saved under that name or gets it.
-/
namespace Cpm80

namespace SortedMap

variable {α β : Type} [LT α] [DecidableEq α] {m : SortedMap α β} {k : α} {x y : β}

theorem get?_erase_ne (h : m.get? k ≠ some x) (other : α) : (m.erase other).get? k ≠ some x := by
  rw [get?_erase]
  split
  case isTrue => simp
  case isFalse => exact h

theorem get?_insert_ne [DecidableLT α] [KeyOrder α] (h : m.get? k ≠ some x) (hne : y ≠ x)
    (other : α) : (m.insert other y).get? k ≠ some x := by
  rw [get?_insert]
  split
  case isTrue => simpa using hne
  case isFalse => exact h

end SortedMap

namespace HostDirectory

variable {d e : HostDirectory} {path : String} {content : Array UInt8}

/-- The host writes no file over a directory. -/
theorem ne_directory_of_write (h : d.write path content = .ok e) :
    d.get? path ≠ some .directory := by
  intro hthere
  rw [write, if_pos hthere] at h
  split at h <;> cases h

/-- The host gives no file the name of a directory. -/
theorem ne_directory_of_rename {new : String} (hfile : d.get? path = some (.file content))
    (h : d.rename path new = .ok e) : d.get? new ≠ some .directory := by
  intro hthere
  rw [rename, hfile, hthere] at h
  cases h

end HostDirectory

namespace DirectoryDrive

open FileName HostDirectory

variable {d : DirectoryDrive} {host : HostDirectory} {listing : List (String × Array UInt8)}
  {path : String} {entry : HostEntry} {content : Array UInt8}

theorem Change.isNormal_of_target? {c : Change} {name : String} (h : c.target? = some name) :
    IsNormal name := by
  cases c with
  | save given content => exact isNormal_of_normalize? h
  | delete given => cases h
  | rename old new => exact isNormal_of_normalize? h

/-! ## Entries out of sight -/

/-- No file of the drive lies at the path. -/
def OutOfSight (d : DirectoryDrive) (path : String) : Prop :=
  ∀ name, d.hostNames.get? name ≠ some path

theorem outOfSight_of_directory (hlisting : listing.Perm host.files)
    (hpath : host.get? path = some .directory) : (opened host listing).OutOfSight path := by
  obtain ⟨hcoherent, hhost⟩ := coherent_opened hlisting
  intro name hname
  obtain ⟨content, -, hfile⟩ := hcoherent.get?_file hname
  rw [hhost, hpath] at hfile
  cases hfile

theorem outOfSight_of_not_short (hlisting : listing.Perm host.files)
    (hpath : ∀ name, normalize? path = some name → isShort name = false) :
    (opened host listing).OutOfSight path := by
  obtain ⟨hcoherent, -⟩ := coherent_opened hlisting
  intro name hname
  have hlong := hpath name (hcoherent.normalize_path hname)
  have hnone : (opened host listing).files.get? name = none :=
    (short_opened host listing).get?_eq_none (by simp [hlong])
  rw [hcoherent.get?_hostNames_eq_none hnone] at hname
  cases hname

/-! ## What stays -/

/-- The entry is in the directory and out of sight. -/
structure Hides (d : DirectoryDrive) (path : String) (entry : HostEntry) : Prop where
  there : d.host.get? path = some entry
  outOfSight : d.OutOfSight path

/-- A file is put where the drive has it, or else under the name that it is to get. -/
theorem Hides.hostName_ne (h : d.Hides path entry) {name : String} (hname : name ≠ path) :
    d.hostName name ≠ path := by
  rw [hostName]
  cases hplace : d.hostNames.get? name with
  | none => exact hname
  | some place =>
    rintro rfl
    exact h.outOfSight name hplace

/-- An entry out of sight stays as it is, if it is a directory or the change puts no file under
its name. -/
theorem Hides.change (h : d.Hides path entry) (hcoherent : d.Coherent)
    (refusal : Option HostFailure) {c : Change}
    (hc : entry = .directory ∨ c.target? ≠ some path) :
    (d.change refusal c).1.Hides path entry := by
  have houtcome := d.outcome refusal c
  generalize d.change refusal c = result at houtcome
  cases houtcome with
  | refused => exact h
  | @saved given name content host hname hdone =>
    have hplace : d.hostName name ≠ path := by
      intro heq
      rcases hc with rfl | hc
      · exact ne_directory_of_write hdone (heq ▸ h.there)
      · have hne : name ≠ path := by
          rintro rfl
          exact hc hname
        exact h.hostName_ne hne heq
    constructor
    · rw [get?_of_write hdone, if_neg hplace, h.there]
    · intro other
      exact SortedMap.get?_insert_ne (h.outOfSight other) hplace name
  | @deleted given name place host hname hplace hdone =>
    constructor
    · have hne : place ≠ path := by
        rintro rfl
        exact h.outOfSight name hplace
      rw [get?_of_remove hdone, if_neg hne, h.there]
    · intro other
      exact SortedMap.get?_erase_ne (h.outOfSight other) name
  | @lost given name | @forgotten given name =>
    constructor
    · exact h.there
    · intro other
      exact SortedMap.get?_erase_ne (h.outOfSight other) name
  | @renamed old new source target content host hsource htarget hcontent hfree hdone =>
    obtain ⟨place, hplace, hfile⟩ := hcoherent.get?_path hcontent
    rw [hostName, hplace, Option.getD_some] at hdone
    have hnew : target ≠ path := by
      rintro rfl
      rcases hc with rfl | hc
      · exact ne_directory_of_rename hfile hdone h.there
      · exact hc htarget
    have hold : place ≠ path := by
      rintro rfl
      exact h.outOfSight source hplace
    constructor
    · rw [get?_of_rename hfile hdone, if_neg hnew, if_neg hold, h.there]
    · intro other
      have hmoved := SortedMap.get?_erase_ne (h.outOfSight other) source
      exact SortedMap.get?_insert_ne hmoved hnew target

theorem Hides.afterChanges (h : d.Hides path entry) (hcoherent : d.Coherent)
    {changes : List (Change × Option HostFailure)}
    (hchanges : entry = .directory ∨ ∀ c ∈ changes, c.1.target? ≠ some path) :
    (d.afterChanges changes).Hides path entry := by
  induction changes generalizing d with
  | nil => exact h
  | cons c rest ih =>
    have hfirst : entry = .directory ∨ c.1.target? ≠ some path :=
      hchanges.imp_right fun hall => hall c List.mem_cons_self
    have hrest : entry = .directory ∨ ∀ c ∈ rest, c.1.target? ≠ some path :=
      hchanges.imp_right fun hall c hc => hall c (List.mem_cons_of_mem _ hc)
    exact ih (h.change hcoherent c.2 hfirst) (hcoherent.change c.2 c.1).coherent hrest

/-- Whatever is saved, deleted and renamed on a drive, the directories that were there when it was
opened are still there, and nothing in them has changed; and a file that it did not take up is
still there as it was, unless its name is in normal form and a change puts a file under it. -/
theorem hidden_entries_kept (hlisting : listing.Perm host.files)
    (changes : List (Change × Option HostFailure)) :
    let d := (opened host listing).afterChanges changes
    (∀ path, host.get? path = some .directory → d.host.get? path = some .directory) ∧
      (∀ path, ¬IsChild path → d.host.get? path = host.get? path) ∧
        ∀ path content, host.get? path = some (.file content) →
          (opened host listing).OutOfSight path →
            (IsNormal path → ∀ c ∈ changes, c.1.target? ≠ some path) →
              d.host.get? path = some (.file content) := by
  obtain ⟨hcoherent, hhost⟩ := coherent_opened hlisting
  intro d
  refine ⟨fun path hpath => ?_, fun path hpath => ?_, fun path content hpath hhidden hfree => ?_⟩
  · have hhides : (opened host listing).Hides path .directory :=
      ⟨by rw [hhost, hpath], outOfSight_of_directory hlisting hpath⟩
    exact (hhides.afterChanges hcoherent (.inl rfl)).there
  · rw [(hcoherent.afterChanges changes).kept path hpath, hhost]
  · have hhides : (opened host listing).Hides path (.file content) :=
      ⟨by rw [hhost, hpath], hhidden⟩
    have htargets : ∀ c ∈ changes, c.1.target? ≠ some path := by
      intro c hc htarget
      exact hfree (Change.isNormal_of_target? htarget) c hc htarget
    exact (hhides.afterChanges hcoherent (.inr htargets)).there

/-- A sub-directory and files that a drive does not take up. -/
def crowded : HostDirectory :=
  ⟨.ofList [("A.TXT", .file #[1]), ("ARCHIVE.TAR.GZ", .file #[2]), ("SUB", .directory),
    ("SUB/A.TXT", .file #[3]), ("longfilename.txt", .file #[4])]⟩

/-- The second change finds a directory in its way. -/
def crowdedChanges : List (Change × Option HostFailure) :=
  [(.save "LONGFILENAME.TXT" #[5], none), (.rename "a.txt" "sub", none),
    (.rename "a.txt" "archive.tar", none), (.delete "ARCHIVE.TAR.GZ", none)]

theorem hidden_entries_kept_crowded :
    let d := (opened crowded crowded.files).afterChanges crowdedChanges
    (Drive.directory d).list = ["ARCHIVE.TAR", "LONGFILENAME.TXT"] ∧
      d.host.get? "SUB" = some .directory ∧ d.host.get? "SUB/A.TXT" = some (.file #[3]) ∧
        d.host.get? "longfilename.txt" = some (.file #[4]) ∧
          d.host.get? "ARCHIVE.TAR.GZ" = some (.file #[2]) := by
  have hlisting : crowded.files.Perm crowded.files := List.Perm.refl _
  obtain ⟨hdirectories, hbelow, hfiles⟩ := hidden_entries_kept hlisting crowdedChanges
  have hlong : (opened crowded crowded.files).OutOfSight "longfilename.txt" :=
    outOfSight_of_not_short hlisting (by decide +kernel)
  have hdotted : (opened crowded crowded.files).OutOfSight "ARCHIVE.TAR.GZ" :=
    outOfSight_of_not_short hlisting (by decide +kernel)
  refine ⟨by decide +kernel, hdirectories "SUB" (by decide +kernel), ?_, ?_, ?_⟩
  · rw [hbelow "SUB/A.TXT" fun hchild => hchild.2.2.2 (by decide)]
    decide +kernel
  · exact hfiles "longfilename.txt" #[4] (by decide +kernel) hlong fun hnormal =>
      absurd hnormal (by decide +kernel)
  · exact hfiles "ARCHIVE.TAR.GZ" #[2] (by decide +kernel) hdotted fun _ => by decide +kernel

/-! ## What is replaced -/

/-- A file out of sight is replaced when a file is saved under its name. -/
theorem Coherent.save_over_hidden {name : String} (h : d.Coherent)
    (hfile : d.host.get? path = some (.file content)) (hlength : isTooLong path = false)
    (hname : normalize? name = some path) (hfree : d.files.contains path = false)
    (new : Array UInt8) :
    (d.save name new).2 = none ∧ (d.save name new).1.host.get? path = some (.file new) := by
  have hunknown : d.hostNames.get? path = none := by
    apply h.get?_hostNames_eq_none
    rwa [SortedMap.contains, Option.isSome_eq_false_iff, Option.isNone_iff_eq_none] at hfree
  have hplace : d.hostName path = path := by rw [hostName, hunknown, Option.getD_none]
  have hdone : d.host.write path new = .ok (d.host.put path (.file new)) := by
    simp [write, hlength, hfile]
  have hsaved : d.save name new = (⟨d.files.insert path new, d.hostNames.insert path path,
      d.host.put path (.file new)⟩, none) := by
    simp only [save, DirectoryDrive.change, attempt, Files.normalize_eq_ok_iff.mpr hname, hplace,
      hdone]
  rw [hsaved]
  exact ⟨rfl, by simp [HostDirectory.get?, put, SortedMap.get?_insert]⟩

/-- So a drive destroys a file that it has skipped, by saving and by renaming alike. -/
theorem hidden_file_replaced :
    let d := opened crowded crowded.files
    d.OutOfSight "ARCHIVE.TAR.GZ" ∧ d.host.get? "ARCHIVE.TAR.GZ" = some (.file #[2]) ∧
      (d.rename "A.TXT" "ARCHIVE.TAR.GZ").1.host.get? "ARCHIVE.TAR.GZ" = some (.file #[1]) ∧
        (d.save "archive.tar.gz" #[5]).1.host.get? "ARCHIVE.TAR.GZ" = some (.file #[5]) :=
  ⟨outOfSight_of_not_short (List.Perm.refl _) (by decide +kernel), by decide +kernel,
    by decide +kernel, by decide +kernel⟩

end DirectoryDrive

end Cpm80
