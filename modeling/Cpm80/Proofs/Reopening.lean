import Cpm80.Proofs.ShortNames

/-!
# Opening a directory again

A drive that is opened on the directory that another drive has changed shows what that drive
shows. The one drive finds in the directory what the other one knows to be there: for each name a
single file. A name for which there were several files from the start is different, since a drive
takes up only one of them and the rest come to light when that one is deleted or renamed; but even
then no file is lost.
-/
namespace Cpm80

namespace SortedMap

variable {α β : Type} [LT α] [DecidableEq α]

theorem mem_of_get? {m : SortedMap α β} {k : α} {x : β} (h : m.get? k = some x) :
    (k, x) ∈ m.entries := by
  obtain ⟨entries, hascending⟩ := m
  rw [get?] at h
  induction entries with
  | nil => cases h
  | cons e rest ih =>
    simp only [find?] at h
    split at h
    case isTrue heq =>
      obtain rfl := Option.some.inj h
      exact heq ▸ List.mem_cons_self
    case isFalse =>
      exact List.mem_cons_of_mem _ (ih (List.pairwise_cons.mp hascending).2 h)

/-- Maps with the same lookups are equal. -/
theorem ext_get? [KeyOrder α] {m n : SortedMap α β} (h : ∀ k, m.get? k = n.get? k) : m = n := by
  have : Std.Irrefl (fun a b : α × β => a.1 < b.1) := ⟨fun a => KeyOrder.irrefl a.1⟩
  have : Std.Antisymm (fun a b : α × β => a.1 < b.1) :=
    ⟨fun a b hab hba => absurd (KeyOrder.trans hab hba) (KeyOrder.irrefl a.1)⟩
  have hentries : m.entries = n.entries := by
    apply List.Pairwise.eq_of_mem_iff m.ascending n.ascending
    rintro ⟨k, x⟩
    constructor
    · intro hmem
      exact mem_of_get? ((h k).symm.trans (get?_of_mem hmem))
    · intro hmem
      exact mem_of_get? ((h k).trans (get?_of_mem hmem))
  cases m
  cases n
  congr

end SortedMap

namespace HostDirectory

theorem mem_files_of_get? {d : HostDirectory} {path : String} {content : Array UInt8}
    (h : d.get? path = some (.file content)) (hpath : IsChild path) :
    (path, content) ∈ d.files := by
  apply List.mem_filterMap.mpr
  refine ⟨(path, .file content), SortedMap.mem_of_get? h, ?_⟩
  simpa using hpath.2.2.2

/-- Of all files in the directory at most one has the name for its normal form. -/
def SpelledOnce (d : HostDirectory) (name : String) : Prop :=
  ∀ path other content content', d.get? path = some (.file content) →
    d.get? other = some (.file content') → FileName.normalize? path = some name →
    FileName.normalize? other = some name → path = other

end HostDirectory

namespace DirectoryDrive

open FileName HostDirectory

variable {d e : DirectoryDrive} {host : HostDirectory} {listing : List (String × Array UInt8)}
  {name path : String} {content : Array UInt8}

/-! ## What an opened drive takes up -/

theorem contains_takeIn_of_contains (h : d.files.contains name = true)
    (file : String × Array UInt8) : (d.takeIn file).files.contains name = true := by
  rw [takeIn]
  split
  case h_2 => exact h
  case h_1 normal hnormal =>
    split
    case isFalse => exact h
    case isTrue =>
      rw [SortedMap.contains, SortedMap.get?_insert]
      split
      · rfl
      · exact h

theorem contains_takeIn (hname : normalize? path = some name) (hshort : isShort name = true) :
    (d.takeIn (path, content)).files.contains name = true := by
  simp only [takeIn, hname, hshort, if_true, SortedMap.contains, SortedMap.get?_insert,
    Option.isSome_some]

theorem contains_foldl_takeIn_of_contains (h : d.files.contains name = true) :
    (listing.foldl takeIn d).files.contains name = true := by
  induction listing generalizing d with
  | nil => exact h
  | cons file rest ih => exact ih (contains_takeIn_of_contains h file)

/-- Every file with a short name is taken up, or another one of that name is. -/
theorem contains_opened (hmem : (path, content) ∈ listing) (hname : normalize? path = some name)
    (hshort : isShort name = true) : (opened host listing).files.contains name = true := by
  suffices ∀ d : DirectoryDrive, (listing.foldl takeIn d).files.contains name = true from this _
  induction listing with
  | nil => cases hmem
  | cons file rest ih =>
    intro d
    rcases List.mem_cons.mp hmem with rfl | hmem
    · rw [List.foldl_cons]
      exact contains_foldl_takeIn_of_contains (contains_takeIn hname hshort)
    · exact ih hmem _

/-! ## Drives that know the files of a name -/

/-- A file in the directory that has the name for its normal form is the one that the drive has
under the name. -/
def Knows (d : DirectoryDrive) (name : String) : Prop :=
  ∀ path content, d.host.get? path = some (.file content) → normalize? path = some name →
    d.hostNames.get? name = some path

theorem Knows.spelledOnce (h : d.Knows name) : d.host.SpelledOnce name := by
  intro path other content content' hpath hother hname hname'
  exact Option.some.inj ((h path content hpath hname).symm.trans (h other content' hother hname'))

theorem knows_opened (hlisting : listing.Perm host.files) (honce : host.SpelledOnce name)
    (hshort : isShort name = true) : (opened host listing).Knows name := by
  obtain ⟨hcoherent, hhost⟩ := coherent_opened hlisting
  intro path content hpath hname
  rw [hhost] at hpath
  have hmem : (path, content) ∈ listing :=
    hlisting.mem_iff.mpr (mem_files_of_get? hpath (isChild_of_normalize? hname))
  have hthere : (opened host listing).files.contains name = true :=
    contains_opened hmem hname hshort
  obtain ⟨held, hheld⟩ := Option.isSome_iff_exists.mp hthere
  obtain ⟨other, hother, hfile⟩ := hcoherent.get?_path hheld
  rw [hhost] at hfile
  rw [hother, honce other path held content hfile hpath (hcoherent.normalize_path hother) hname]

theorem Knows.saved (h : d.Knows name) (hcoherent : d.Coherent) {given saved : String}
    (hsaved : normalize? given = some saved)
    (hdone : d.host.write (d.hostName saved) content = .ok host) :
    Knows ⟨d.files.insert saved content, d.hostNames.insert saved (d.hostName saved), host⟩
      name := by
  have hspelled := hcoherent.normalize_hostName (isNormal_of_normalize? hsaved)
  intro path held hpath hname
  rw [get?_of_write hdone] at hpath
  rw [SortedMap.get?_insert]
  split at hpath
  case isTrue heq =>
    rw [← heq] at hname ⊢
    rw [if_pos (Option.some.inj (hspelled.symm.trans hname))]
  case isFalse hne =>
    have hknown := h path held hpath hname
    have hother : saved ≠ name := by
      rintro rfl
      apply hne
      rw [hostName, hknown, Option.getD_some]
    rw [if_neg hother]
    exact hknown

theorem Knows.deleted (h : d.Knows name) {deleted place : String}
    (hplace : d.hostNames.get? deleted = some place) (hdone : d.host.remove place = .ok host) :
    Knows { d.forget deleted with host } name := by
  intro path held hpath hname
  rw [get?_of_remove hdone] at hpath
  split at hpath
  case isTrue => cases hpath
  case isFalse hne =>
    have hknown := h path held hpath hname
    have hother : deleted ≠ name := by
      rintro rfl
      exact hne (Option.some.inj (hplace.symm.trans hknown))
    rw [forget, SortedMap.get?_erase, if_neg hother]
    exact hknown

theorem Knows.renamed (h : d.Knows name) (hcoherent : d.Coherent) {new source target : String}
    (htarget : normalize? new = some target) (hcontent : d.files.get? source = some content)
    (hfree : d.files.contains target = false)
    (hdone : d.host.rename (d.hostName source) target = .ok host) :
    Knows ⟨(d.files.erase source).insert target content,
      (d.hostNames.erase source).insert target target, host⟩ name := by
  obtain ⟨place, hplace, hfile⟩ := hcoherent.get?_path hcontent
  rw [hostName, hplace, Option.getD_some] at hdone
  intro path held hpath hname
  rw [get?_of_rename hfile hdone] at hpath
  rw [SortedMap.get?_insert, SortedMap.get?_erase]
  split at hpath
  case isTrue heq =>
    have hnormal : normalize? target = some target := isNormal_of_normalize? htarget
    rw [← heq] at hname ⊢
    rw [if_pos (Option.some.inj (hnormal.symm.trans hname))]
  case isFalse hne =>
    split at hpath
    case isTrue => cases hpath
    case isFalse hmoved =>
      have hknown := h path held hpath hname
      have hold : source ≠ name := by
        rintro rfl
        exact hmoved (Option.some.inj (hplace.symm.trans hknown))
      have hnew : target ≠ name := by
        rintro rfl
        have hthere := hcoherent.contains_eq target
        rw [hfree, SortedMap.contains, hknown] at hthere
        cases hthere
      rw [if_neg hnew, if_neg hold]
      exact hknown

/-- The host removes what the drive knows to be there. -/
theorem Coherent.exists_remove (h : d.Coherent) (hthere : d.files.contains name = true) :
    ∃ place next, d.hostNames.get? name = some place ∧ d.host.remove place = .ok next := by
  obtain ⟨held, hheld⟩ := Option.isSome_iff_exists.mp hthere
  obtain ⟨place, hplace, hfile⟩ := h.get?_path hheld
  refine ⟨place, ⟨d.host.entries.erase place⟩, hplace, ?_⟩
  rw [remove, hfile]

/-- A drive knows the files of a name after every change that the host does not spoil by leaving
a file where it is that it was to remove. -/
theorem Knows.change (h : d.Knows name) (hcoherent : d.Coherent) {refusal : Option HostFailure}
    {c : Change} (hdelete : ∀ given, c = .delete given → refusal = none) :
    (d.change refusal c).1.Knows name := by
  have houtcome := d.outcome refusal c
  generalize d.change refusal c = result at houtcome
  cases houtcome with
  | refused => exact h
  | saved hsaved hdone => exact h.saved hcoherent hsaved hdone
  | deleted hdeleted hplace hdone => exact h.deleted hplace hdone
  | renamed hsource htarget hcontent hfree hdone =>
    exact h.renamed hcoherent htarget hcontent hfree hdone
  | @lost given _ _ hthere hgone =>
    obtain rfl := hdelete given rfl
    obtain ⟨place, next, hplace, hdone⟩ := hcoherent.exists_remove hthere
    cases (hgone place hplace).symm.trans hdone
  | @forgotten given _ place _ _ hthere hplace hfails =>
    obtain rfl := hdelete given rfl
    obtain ⟨other, next, hother, hdone⟩ := hcoherent.exists_remove hthere
    obtain rfl := Option.some.inj (hplace.symm.trans hother)
    cases hfails.symm.trans hdone

theorem Knows.afterChanges (h : d.Knows name) (hcoherent : d.Coherent)
    {changes : List (Change × Option HostFailure)}
    (hdeletes : ∀ c ∈ changes, ∀ given, c.1 = .delete given → c.2 = none) :
    (d.afterChanges changes).Knows name := by
  induction changes generalizing d with
  | nil => exact h
  | cons c rest ih =>
    obtain ⟨hfirst, hrest⟩ := List.forall_mem_cons.mp hdeletes
    exact ih (h.change hcoherent hfirst) (hcoherent.change c.2 c.1).coherent hrest

/-! ## Two drives on one directory -/

/-- A file of the one drive is on the other one, which knows the files of its name. -/
theorem Knows.get?_of_get? (h : e.Knows name) (hd : d.Coherent) (he : e.Coherent)
    (hhost : e.host = d.host) (hfile : d.files.get? name = some content) :
    e.hostNames.get? name = d.hostNames.get? name ∧ e.files.get? name = some content := by
  obtain ⟨path, hpath, hthere⟩ := hd.get?_path hfile
  have hknown := h path content (hhost ▸ hthere) (hd.normalize_path hpath)
  obtain ⟨held, hheld, hsame⟩ := he.get?_file hknown
  rw [hhost, hthere] at hsame
  obtain rfl := HostEntry.file.inj (Option.some.inj hsame)
  exact ⟨hknown.trans hpath.symm, hheld⟩

/-- Two drives that both know the files of a name have the same under it. -/
theorem Knows.get?_eq (hname : d.Knows name) (hname' : e.Knows name) (hd : d.Coherent)
    (he : e.Coherent) (hhost : e.host = d.host) :
    e.hostNames.get? name = d.hostNames.get? name ∧
      e.files.get? name = d.files.get? name := by
  cases hfile : d.files.get? name with
  | some content => exact hname'.get?_of_get? hd he hhost hfile
  | none =>
    cases hfile' : e.files.get? name with
    | some content =>
      have hsame := (hname.get?_of_get? he hd hhost.symm hfile').2
      rw [hfile] at hsame
      cases hsame
    | none => exact ⟨by rw [hd.get?_hostNames_eq_none hfile, he.get?_hostNames_eq_none hfile'], rfl⟩

/-! ## The drive that is opened again -/

theorem Coherent.contains_reopened (h : d.Coherent) {again : List (String × Array UInt8)}
    (hagain : again.Perm d.host.files) (hthere : d.files.contains name = true)
    (hshort : isShort name = true) : (opened d.host again).files.contains name = true := by
  obtain ⟨held, hheld⟩ := Option.isSome_iff_exists.mp hthere
  obtain ⟨path, hpath, hfile⟩ := h.get?_path hheld
  have hname := h.normalize_path hpath
  have hmem := hagain.mem_iff.mpr (mem_files_of_get? hfile (isChild_of_normalize? hname))
  exact contains_opened hmem hname hshort

/-- Under a short name of which there was at most one file in the beginning, and under any other
name, the drive and the one that is opened again have the same. -/
theorem get?_reopened (hlisting : listing.Perm host.files)
    {changes : List (Change × Option HostFailure)} (hchanges : ∀ c ∈ changes, c.1.Fits)
    (hdeletes : ∀ c ∈ changes, ∀ given, c.1 = .delete given → c.2 = none)
    {again : List (String × Array UInt8)}
    (hagain : again.Perm ((opened host listing).afterChanges changes).host.files)
    (honce : isShort name = true → host.SpelledOnce name) :
    let d := (opened host listing).afterChanges changes
    (opened d.host again).hostNames.get? name = d.hostNames.get? name ∧
      (opened d.host again).files.get? name = d.files.get? name := by
  intro d
  obtain ⟨hopened, -⟩ := coherent_opened hlisting
  have hd : d.Coherent := (hopened.afterChanges changes).coherent
  obtain ⟨hfresh, hhost⟩ := coherent_opened hagain
  by_cases hname : isShort name = true
  case pos =>
    have hknows : d.Knows name :=
      (knows_opened hlisting (honce hname) hname).afterChanges hopened hdeletes
    have hknows' : (opened d.host again).Knows name :=
      knows_opened hagain hknows.spelledOnce hname
    exact hknows.get?_eq hknows' hd hfresh hhost
  case neg =>
    have hd_none : d.files.get? name = none :=
      (short_afterChanges (short_opened host listing) hchanges).get?_eq_none hname
    have hfresh_none : (opened d.host again).files.get? name = none :=
      (short_opened d.host again).get?_eq_none hname
    exact ⟨by rw [hd.get?_hostNames_eq_none hd_none, hfresh.get?_hostNames_eq_none hfresh_none],
      by rw [hd_none, hfresh_none]⟩

/-- Whatever is saved under short names, deleted and renamed to short names on a drive by a host
that removes what it is told to: the drive that is then opened on the directory lists every name
that the drive lists; it shows the same content, or none, under each name that at most one file in
the directory had for its normal form in the beginning; and if that is so for all short names,
then it is the same drive. -/
theorem reopened_shows_same (hlisting : listing.Perm host.files)
    {changes : List (Change × Option HostFailure)} (hchanges : ∀ c ∈ changes, c.1.Fits)
    (hdeletes : ∀ c ∈ changes, ∀ given, c.1 = .delete given → c.2 = none) :
    let d := (opened host listing).afterChanges changes
    ∀ again, again.Perm d.host.files →
      let fresh := opened d.host again
      (∀ name ∈ (Drive.directory d).list, name ∈ (Drive.directory fresh).list) ∧
        (∀ given, (∀ name, normalize? given = some name → host.SpelledOnce name) →
          (Drive.directory fresh).get? given = (Drive.directory d).get? given) ∧
        ((∀ name, isShort name = true → host.SpelledOnce name) → fresh = d) := by
  intro d again hagain fresh
  have hsame (name : String) (honce : isShort name = true → host.SpelledOnce name) :
      fresh.hostNames.get? name = d.hostNames.get? name ∧
        fresh.files.get? name = d.files.get? name :=
    get?_reopened hlisting hchanges hdeletes hagain honce
  refine ⟨fun name hname => ?_, fun given honce => ?_, fun honce => ?_⟩
  · have hcoherent : d.Coherent :=
      ((coherent_opened hlisting).1.afterChanges changes).coherent
    have hshort : d.files.Short := short_afterChanges (short_opened host listing) hchanges
    apply SortedMap.mem_keys_iff.mpr
    exact hcoherent.contains_reopened hagain (SortedMap.mem_keys_iff.mp hname) (hshort name hname)
  · rw [Drive.get?, Drive.get?]
    cases hnormal : normalize? given with
    | none => rfl
    | some name => exact (hsame name fun _ => honce name hnormal).2
  · have hfiles : fresh.files = d.files := SortedMap.ext_get? fun name => (hsame name (honce name)).2
    have hnames : fresh.hostNames = d.hostNames :=
      SortedMap.ext_get? fun name => (hsame name (honce name)).1
    have hhost : fresh.host = d.host := (coherent_opened hagain).2
    exact congr (congr (congrArg mk hfiles) hnames) hhost

/-- A file under a name in lower case, one whose name is no short name, and a directory. -/
def mixedCase : HostDirectory :=
  ⟨.ofList [("a.txt", .file #[1]), ("archive.tar.gz", .file #[2]), ("sub", .directory)]⟩

theorem spelledOnce_mixedCase (name : String) : mixedCase.SpelledOnce name := by
  have hfiles {path : String} {content : Array UInt8}
      (h : mixedCase.get? path = some (.file content)) :
      path = "a.txt" ∨ path = "archive.tar.gz" := by
    have hmem := SortedMap.mem_of_get? h
    have hentries : mixedCase.entries.entries =
        [("a.txt", .file #[1]), ("archive.tar.gz", .file #[2]), ("sub", .directory)] := by
      decide +kernel
    rw [hentries] at hmem
    simp only [List.mem_cons, Prod.mk.injEq, List.not_mem_nil, or_false, reduceCtorEq,
      and_false] at hmem
    exact hmem.imp And.left And.left
  have hnames : normalize? "a.txt" ≠ normalize? "archive.tar.gz" := by decide +kernel
  intro path other content content' hpath hother hname hname'
  rcases hfiles hpath with rfl | rfl
  · rcases hfiles hother with rfl | rfl
    · rfl
    · exact absurd (hname.trans hname'.symm) hnames
  · rcases hfiles hother with rfl | rfl
    · exact absurd (hname'.trans hname.symm) hnames
    · rfl

/-- The host refuses the second change. -/
def mixedChanges : List (Change × Option HostFailure) :=
  [(.save "A.TXT" #[3], none), (.save "b" #[4], some .notADirectory),
    (.rename "a.txt" " c.txt", none), (.save "d" #[5], none), (.delete "D", none)]

theorem reopened_shows_same_mixedChanges :
    let d := (opened mixedCase mixedCase.files).afterChanges mixedChanges
    (Drive.directory d).list = ["C.TXT"] ∧ d.host.get? "a.txt" = none ∧
      opened d.host d.host.files = d := by
  have hchanges : ∀ c ∈ mixedChanges, c.1.Fits := by decide +kernel
  have hdeletes : ∀ c ∈ mixedChanges, ∀ given, c.1 = .delete given → c.2 = none := by
    intro c hc given hdelete
    simp only [mixedChanges, List.mem_cons, List.not_mem_nil, or_false] at hc
    rcases hc with rfl | rfl | rfl | rfl | rfl
    · rfl
    · cases hdelete
    · rfl
    · rfl
    · rfl
  intro d
  have hsame := (reopened_shows_same (List.Perm.refl mixedCase.files) hchanges hdeletes
    d.host.files (List.Perm.refl _)).2.2
  exact ⟨by decide +kernel, by decide +kernel, hsame fun name _ => spelledOnce_mixedCase name⟩

/-! ## Several files of one name -/

/-- A listed file is deleted from the drive and from the directory. -/
theorem Coherent.delete_eq (h : d.Coherent) (hpath : d.hostNames.get? name = some path) :
    d.delete name = ({ d.forget name with host := ⟨d.host.entries.erase path⟩ }, none) := by
  have hname : FileName.normalize name = .ok name :=
    Files.normalize_eq_ok_iff.mpr (isNormal_of_normalize? (h.normalize_path hpath))
  obtain ⟨content, hcontent, hfile⟩ := h.get?_file hpath
  have hthere : d.files.contains name = true := Option.isSome_of_eq_some hcontent
  simp only [delete, DirectoryDrive.change, attempt, hname, hthere, hpath, remove, hfile,
    if_true]

/-- When the name of several files is deleted, one of them is gone, and the drive that is opened
next lists the name again. -/
theorem deleted_listed_again (hlisting : listing.Perm host.files) {other : String}
    {content' : Array UInt8} (hpath : host.get? path = some (.file content))
    (hother : host.get? other = some (.file content')) (hne : path ≠ other)
    (hname : normalize? path = some name) (hname' : normalize? other = some name)
    (hshort : isShort name = true) :
    let d := ((opened host listing).delete name).1
    name ∉ (Drive.directory d).list ∧
      ∀ again, again.Perm d.host.files → name ∈ (Drive.directory (opened d.host again)).list := by
  obtain ⟨hcoherent, hhost⟩ := coherent_opened hlisting
  have hmem := hlisting.mem_iff.mpr (mem_files_of_get? hpath (isChild_of_normalize? hname))
  have hthere : (opened host listing).files.contains name = true :=
    contains_opened hmem hname hshort
  obtain ⟨held, hheld⟩ := Option.isSome_iff_exists.mp hthere
  obtain ⟨place, hplace, -⟩ := hcoherent.get?_path hheld
  intro d
  have hd : d = { (opened host listing).forget name with
      host := ⟨(opened host listing).host.entries.erase place⟩ } :=
    congrArg Prod.fst (hcoherent.delete_eq hplace)
  have hget (p : String) : d.host.get? p = if place = p then none else host.get? p := by
    rw [hd, HostDirectory.get?, SortedMap.get?_erase, hhost]
    rfl
  have hlists {p : String} {x : Array UInt8} (hleft : d.host.get? p = some (.file x))
      (hp : normalize? p = some name) {again : List (String × Array UInt8)}
      (hagain : again.Perm d.host.files) :
      name ∈ (Drive.directory (opened d.host again)).list := by
    apply SortedMap.mem_keys_iff.mpr
    have hmem := hagain.mem_iff.mpr (mem_files_of_get? hleft (isChild_of_normalize? hp))
    exact contains_opened hmem hp hshort
  constructor
  · intro hlisted
    have hthere := SortedMap.mem_keys_iff.mp hlisted
    rw [Drive.files, hd, forget, SortedMap.contains, SortedMap.get?_erase, if_pos rfl] at hthere
    cases hthere
  · intro again hagain
    -- of the two files at least one is not the one that has been removed
    by_cases hgone : place = path
    · have hleft : d.host.get? other = some (.file content') := by
        rw [hget, if_neg fun heq => hne (hgone.symm.trans heq), hother]
      exact hlists hleft hname' hagain
    · have hleft : d.host.get? path = some (.file content) := by rw [hget, if_neg hgone, hpath]
      exact hlists hleft hname hagain

/-- So a fresh drive may list a file that has been deleted, in a directory of two files. -/
theorem exists_reopened_list_ne :
    ∃ (host : HostDirectory) (name : String),
      let d := ((ofHost host).delete name).1
      (ofHost host).host.files.length = 2 ∧ (Drive.directory d).list = [] ∧
        (Drive.directory (ofHost d.host)).list = [name] :=
  ⟨⟨.ofList [("A.TXT", .file #[1]), ("a.txt", .file #[2])]⟩, "A.TXT", by decide +kernel,
    by decide +kernel, by decide +kernel⟩

end DirectoryDrive

end Cpm80
