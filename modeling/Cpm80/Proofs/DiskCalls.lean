import Cpm80.Proofs.DriveOperations
import Cpm80.Proofs.SequentialAccess
import Mathlib.Tactic.IntervalCases

/-!
# What disk calls leave alone

A call that answers anything but success has changed nothing that a program can see: neither the
memory, control block and transfer buffer included, nor a file, the current drive, the transfer
address or the user number. Each call decides before it writes. Only the deletion of several files
does one after another; on drives that operations have brought about every listed file can be
deleted, so it does not stop halfway.
-/
namespace Cpm80

namespace Files

variable {f : Files}

/-- The files without those of some names. -/
def eraseAll (f : Files) (names : List String) : Files :=
  names.foldl SortedMap.erase f

theorem get?_eraseAll (f : Files) (names : List String) (name : String) :
    (f.eraseAll names).get? name = if name ∈ names then none else f.get? name := by
  induction names generalizing f with
  | nil => rfl
  | cons first rest ih =>
    have hrest : (f.eraseAll (first :: rest)).get? name =
        if name ∈ rest then none else (f.erase first).get? name := ih (f.erase first)
    rw [hrest, SortedMap.get?_erase]
    by_cases hin : name ∈ rest
    · rw [if_pos hin, if_pos (List.mem_cons_of_mem _ hin)]
    · by_cases hfirst : first = name
      · rw [if_neg hin, if_pos hfirst, if_pos (hfirst ▸ List.mem_cons_self)]
      · have hout : name ∉ first :: rest := by
          rw [List.mem_cons, not_or]
          exact ⟨fun heq => hfirst heq.symm, hin⟩
        rw [if_neg hin, if_neg hfirst, if_neg hout]

theorem mem_keys_erase {first name : String} (hne : name ≠ first) (h : name ∈ f.keys) :
    name ∈ (f.erase first).keys := by
  rw [SortedMap.mem_keys_iff, SortedMap.contains, SortedMap.get?_erase, if_neg hne.symm]
  exact SortedMap.mem_keys_iff.mp h

theorem nodup_keys (f : Files) : f.keys.Nodup :=
  f.ascending_keys.imp String.ne_of_lt

end Files

namespace DiskSystem

open Drive

/-! ## Deleting several files -/

/-- Files that are on the drive are all deleted. -/
theorem deleteAll_memory {files : Files} (h : files.Normal) {names : List String}
    (hthere : ∀ name ∈ names, name ∈ files.keys) (hnodup : names.Nodup) :
    deleteAll (memory files) names = (memory (files.eraseAll names), none) := by
  induction names generalizing files with
  | nil => rfl
  | cons name rest ih =>
    obtain ⟨hname, hrest⟩ := List.forall_mem_cons.mp hthere
    obtain ⟨hfirst, hnodup⟩ := List.nodup_cons.mp hnodup
    have hleft : ∀ other ∈ rest, other ∈ (files.erase name).keys := by
      intro other hother
      have hne : other ≠ name := by
        rintro rfl
        exact hfirst hother
      exact Files.mem_keys_erase hne (hrest other hother)
    have hdelete : (memory files).delete name = (memory (files.erase name), none) := by
      rw [memory_delete, h.delete_eq hname]
      rfl
    rw [deleteAll, hdelete]
    exact ih (h.erase name) hleft hnodup

/-- Deleting several files comes to operations on the drive. -/
theorem exists_operations_deleteAll (drive : Drive) (names : List String) :
    ∃ operations, (deleteAll drive names).1 = drive.after operations := by
  induction names generalizing drive with
  | nil => exact ⟨[], rfl⟩
  | cons name rest ih =>
    rw [deleteAll]
    split
    case h_1 left hdeleted =>
      obtain ⟨operations, hrest⟩ := ih left
      have hfirst : (drive.perform (.delete name)).1 = left := congrArg Prod.fst hdeleted
      exact ⟨.delete name :: operations, by rw [hrest, after_cons, hfirst]⟩
    case h_2 left e hrefused =>
      have hfirst : (drive.perform (.delete name)).1 = left := congrArg Prod.fst hrefused
      exact ⟨[.delete name], hfirst.symm⟩

variable {d e : DiskSystem} {m : Memory} {fcb : UInt16} {index : Nat} {drive : Drive}

theorem filesMatching_eq (h : d.drive? index = some drive) (pattern : String) :
    d.filesMatching index pattern =
      drive.list.filter fun name => FileName.isMatch name pattern := by
  rw [filesMatching, h]

/-- The files of a drive in memory that match a pattern are all deleted. -/
theorem deleteAll_matching {files : Files} (h : files.Normal) (pattern : String) :
    let names := files.keys.filter fun name => FileName.isMatch name pattern
    deleteAll (memory files) names = (memory (files.eraseAll names), none) :=
  deleteAll_memory h (fun _ hname => (List.mem_filter.mp hname).1) (files.nodup_keys.filter _)

theorem setDrive_self (h : d.drive? index = some drive) : d.setDrive index drive = d := by
  obtain ⟨hlt, hget⟩ := List.getElem?_eq_some_iff.mp h
  rw [setDrive, ← hget, List.set_getElem_self]

/-! ## What a call comes to -/

/-- All drives lie in memory, with names in normal form. -/
def InMemory (d : DiskSystem) : Prop :=
  ∀ drive ∈ d.drives, drive.InMemory

/-- What a call on files comes to, with the names that a search has still to report. The call
refuses without having touched the memory or a drive, or it has its effect without touching a
drive, or it operates on one drive. If it operates on a drive and yet refuses, it has not touched
the memory, and the drive is as before if it lies in memory. -/
inductive Outcome (d : DiskSystem) (m : Memory) : (found : List String) → Reply → Prop
  | refused (found : List String) (answer : UInt16) :
      Outcome d m found ⟨{ d with found }, m, answer⟩
  | served (found : List String) (n : Memory) :
      Outcome d m found ⟨{ d with found }, n, Answer.success⟩
  | operated {index : Nat} {drive left : Drive} {n : Memory} {answer : UInt16}
      (hdrive : d.drive? index = some drive)
      (hleft : ∃ operations, left = drive.after operations)
      (hrefused : answer ≠ Answer.success → n = m ∧ (drive.InMemory → left = drive)) :
      Outcome d m d.found ⟨d.setDrive index left, n, answer⟩

theorem Outcome.failed (d : DiskSystem) (m : Memory) : Outcome d m d.found (d.failed m) :=
  .refused d.found Answer.failure

theorem outcome_openFile (d : DiskSystem) (m : Memory) (fcb : UInt16) :
    Outcome d m d.found (d.openFile m fcb) := by
  rw [openFile]
  split
  case h_1 => exact .failed d m
  case h_2 =>
    split
    case h_1 => exact .failed d m
    case h_2 => exact .served d.found _

theorem outcome_closeFile (d : DiskSystem) (m : Memory) (fcb : UInt16) :
    Outcome d m d.found (d.closeFile m fcb) := by
  rw [closeFile]
  split
  case h_1 => exact .failed d m
  case h_2 =>
    split
    case isTrue => exact .served d.found m
    case isFalse => exact .failed d m

theorem outcome_searchNext (d : DiskSystem) (m : Memory) :
    Outcome d m d.found.tail (d.searchNext m) := by
  rw [searchNext]
  split
  case h_1 hfound =>
    have hsame : d.found.tail = d.found := by rw [hfound, List.tail_nil]
    rw [hsame]
    exact .failed d m
  case h_2 name rest hfound =>
    rw [hfound]
    exact .served rest _

/-- Also a search that finds nothing puts an end to the one before. -/
theorem outcome_searchFirst (d : DiskSystem) (m : Memory) (fcb : UInt16) :
    ∃ found, Outcome d m found (d.searchFirst m fcb) := by
  rw [searchFirst]
  split
  case h_1 => exact ⟨_, .failed d m⟩
  case h_2 =>
    rw [searchNext]
    split
    case h_1 => exact ⟨_, .refused _ Answer.failure⟩
    case h_2 name rest hfound => exact ⟨_, .served rest _⟩

theorem outcome_readSequential (d : DiskSystem) (m : Memory) (fcb : UInt16) :
    Outcome d m d.found (d.readSequential m fcb) := by
  rw [readSequential]
  split
  case h_1 => exact .failed d m
  case h_2 =>
    split
    case h_1 => exact .failed d m
    case h_2 =>
      dsimp only
      split
      case isTrue => exact .refused d.found Answer.endOfFile
      case isFalse => exact .served d.found _

theorem outcome_deleteFiles (d : DiskSystem) (m : Memory) (fcb : UInt16) :
    Outcome d m d.found (d.deleteFiles m fcb) := by
  rw [deleteFiles]
  split
  case h_1 => exact .failed d m
  case h_2 index drive hselected =>
    have hdrive := drive?_of_selected? hselected
    rw [filesMatching_eq hdrive]
    split
    case h_1 => exact .failed d m
    case h_2 =>
      refine .operated hdrive (exists_operations_deleteAll drive _) fun hrefused => ⟨rfl, ?_⟩
      -- a drive in memory deletes every file that it lists
      rintro ⟨files, hnormal, rfl⟩
      have hdeleted := deleteAll_matching hnormal (FileControlBlock.name m fcb)
      have hdone : (deleteAll (memory files) ((memory files).list.filter fun name =>
          FileName.isMatch name (FileControlBlock.name m fcb))).2 = none :=
        congrArg Prod.snd hdeleted
      rw [hdone] at hrefused
      exact absurd rfl hrefused

theorem outcome_of_save {name : String} {content : Array UInt8} {left : Drive}
    (hselected : d.selected? m fcb = some (index, drive))
    (h : drive.save name content = (left, none)) (n : Memory) :
    Outcome d m d.found ⟨d.setDrive index left, n, Answer.success⟩ :=
  .operated (drive?_of_selected? hselected) ⟨[.save name content], (congrArg Prod.fst h).symm⟩
    fun hrefused => absurd rfl hrefused

theorem outcome_of_save_error {name : String} {content : Array UInt8} {left : Drive}
    {error : DriveError} (hselected : d.selected? m fcb = some (index, drive))
    (h : drive.save name content = (left, some error)) :
    Outcome d m d.found ⟨d.setDrive index left, m, Answer.failure⟩ := by
  refine .operated (drive?_of_selected? hselected)
    ⟨[.save name content], (congrArg Prod.fst h).symm⟩ fun _ => ⟨rfl, fun hmemory => ?_⟩
  have hsame := hmemory.save_of_error (by rw [h]; rfl)
  rwa [h] at hsame

theorem outcome_writeSequential (d : DiskSystem) (m : Memory) (fcb : UInt16) :
    Outcome d m d.found (d.writeSequential m fcb) := by
  rw [writeSequential]
  split
  case h_1 => exact .failed d m
  case h_2 index drive hselected =>
    dsimp only
    split
    case h_1 => exact .failed d m
    case h_2 content hfound =>
      split
      case isTrue => exact .refused d.found Answer.diskFull
      case isFalse hroom =>
        split
        case h_1 left error hrefused => exact outcome_of_save_error hselected hrefused
        case h_2 left hsaved => exact outcome_of_save hselected hsaved _

theorem outcome_makeFile (d : DiskSystem) (m : Memory) (fcb : UInt16) :
    Outcome d m d.found (d.makeFile m fcb) := by
  rw [makeFile]
  split
  case h_1 => exact .failed d m
  case h_2 index drive hselected =>
    dsimp only
    split
    case isTrue => exact .failed d m
    case isFalse hfree =>
      split
      case h_1 left error hrefused => exact outcome_of_save_error hselected hrefused
      case h_2 left hsaved => exact outcome_of_save hselected hsaved _

theorem outcome_renameFile (d : DiskSystem) (m : Memory) (fcb : UInt16) :
    Outcome d m d.found (d.renameFile m fcb) := by
  rw [renameFile]
  split
  case h_1 => exact .failed d m
  case h_2 index drive hselected =>
    have hdrive := drive?_of_selected? hselected
    dsimp only
    split
    case isTrue hdone =>
      exact .operated hdrive ⟨[.rename _ _], rfl⟩ fun hrefused => absurd rfl hrefused
    case isFalse hrefused =>
      refine .operated hdrive ⟨[.rename _ _], rfl⟩ fun _ => ⟨rfl, fun hmemory => ?_⟩
      exact hmemory.rename_of_error (Option.isSome_iff_ne_none.mpr fun hnone =>
        hrefused (Option.isNone_iff_eq_none.mpr hnone))

/-- A refused call has left everything alone but what a search has still to report. -/
theorem Outcome.of_refused {found : List String} {r : Reply} (h : Outcome d m found r)
    (hd : d.InMemory) (hrefused : r.answer ≠ Answer.success) :
    r.memory = m ∧ r.disk = { d with found } := by
  cases h with
  | refused found answer => exact ⟨rfl, rfl⟩
  | served found n => exact absurd rfl hrefused
  | operated hdrive hleft hkept =>
    obtain ⟨hmemory, hsame⟩ := hkept hrefused
    refine ⟨hmemory, ?_⟩
    rw [hsame (hd _ (List.mem_of_getElem? hdrive)), setDrive_self hdrive]

theorem Outcome.found_eq {found : List String} {r : Reply} (h : Outcome d m found r) :
    r.disk.found = found := by
  cases h <;> rfl

/-! ## Reachable disk systems -/

/-- The drives of `e` are what operations have made of drives of `d`. -/
def Evolves (d e : DiskSystem) : Prop :=
  ∀ new ∈ e.drives, ∃ old ∈ d.drives, ∃ operations, new = old.after operations

theorem InMemory.of_evolves (h : d.InMemory) (hevolves : Evolves d e) : e.InMemory := by
  intro new hnew
  obtain ⟨old, hold, operations, rfl⟩ := hevolves new hnew
  exact (h old hold).after operations

theorem Evolves.of_drives_eq (h : e.drives = d.drives) : Evolves d e :=
  fun new hnew => ⟨new, h ▸ hnew, [], rfl⟩

theorem evolves_setDrive (h : d.drive? index = some drive) {new : Drive}
    (hnew : ∃ operations, new = drive.after operations) : Evolves d (d.setDrive index new) := by
  intro other hother
  rcases List.mem_or_eq_of_mem_set hother with hstays | rfl
  · exact ⟨other, hstays, [], rfl⟩
  · exact ⟨drive, List.mem_of_getElem? h, hnew⟩

theorem Outcome.evolves {found : List String} {r : Reply} (h : Outcome d m found r) :
    Evolves d r.disk := by
  cases h with
  | refused found answer => exact .of_drives_eq rfl
  | served found n => exact .of_drives_eq rfl
  | operated hdrive hleft hkept => exact evolves_setDrive hdrive hleft

theorem eq_of_select (h : d.select index = .ok e) : e = { d with current := index } := by
  rw [select] at h
  split at h
  · exact (Except.ok.inj h).symm
  · cases h

end DiskSystem

theorem Station.onFiles_parts (s : Station) (f : DiskSystem → Memory → DiskSystem.Reply) :
    s.onFiles f =
      ({ s with disk := (f s.disk s.memory).disk, memory := (f s.disk s.memory).memory },
        (f s.disk s.memory).answer) :=
  onFiles_eq rfl

namespace SystemCall

open DiskSystem

/-- The calls that work on files. -/
def IsFileCall (call : SystemCall) : Prop :=
  call ∈ [openFile, closeFile, searchFirst, searchNext, deleteFiles, readSequential,
    writeSequential, makeFile, renameFile]

instance : DecidablePred IsFileCall := fun _ => inferInstanceAs (Decidable (_ ∈ _))

/-- What a call on files comes to. Only a new search leaves more to report than the one before
it did. -/
theorem exists_outcome {call : SystemCall} (hcall : IsFileCall call) (parameter : UInt16)
    (s : Station) :
    ∃ f found, call.execute parameter s = s.onFiles f ∧
      Outcome s.disk s.memory found (f s.disk s.memory) ∧
      (call ≠ searchFirst →
        found = if call = searchNext then s.disk.found.tail else s.disk.found) := by
  cases call with
  | openFile =>
    have houtcome := outcome_openFile s.disk s.memory parameter
    exact ⟨fun d m => d.openFile m parameter, s.disk.found, rfl, houtcome, fun _ => rfl⟩
  | closeFile =>
    have houtcome := outcome_closeFile s.disk s.memory parameter
    exact ⟨fun d m => d.closeFile m parameter, s.disk.found, rfl, houtcome, fun _ => rfl⟩
  | searchFirst =>
    obtain ⟨found, houtcome⟩ := outcome_searchFirst s.disk s.memory parameter
    exact ⟨fun d m => d.searchFirst m parameter, found, rfl, houtcome,
      fun hother => absurd rfl hother⟩
  | searchNext =>
    exact ⟨fun d m => d.searchNext m, s.disk.found.tail, rfl, outcome_searchNext _ _, fun _ => rfl⟩
  | deleteFiles =>
    have houtcome := outcome_deleteFiles s.disk s.memory parameter
    exact ⟨fun d m => d.deleteFiles m parameter, s.disk.found, rfl, houtcome, fun _ => rfl⟩
  | readSequential =>
    have houtcome := outcome_readSequential s.disk s.memory parameter
    exact ⟨fun d m => d.readSequential m parameter, s.disk.found, rfl, houtcome, fun _ => rfl⟩
  | writeSequential =>
    have houtcome := outcome_writeSequential s.disk s.memory parameter
    exact ⟨fun d m => d.writeSequential m parameter, s.disk.found, rfl, houtcome, fun _ => rfl⟩
  | makeFile =>
    have houtcome := outcome_makeFile s.disk s.memory parameter
    exact ⟨fun d m => d.makeFile m parameter, s.disk.found, rfl, houtcome, fun _ => rfl⟩
  | renameFile =>
    have houtcome := outcome_renameFile s.disk s.memory parameter
    exact ⟨fun d m => d.renameFile m parameter, s.disk.found, rfl, houtcome, fun _ => rfl⟩
  | systemReset | resetDisks | selectDisk | consoleInput | consoleOutput | printString | readLine
  | consoleStatus | version | currentDisk | setTransfer | getUser | setUser =>
    exact absurd hcall (by decide)

theorem disk_readByte (s : Station) : (readByte s).1.disk = s.disk := by
  obtain ⟨m, d, c, u⟩ := s
  rw [readByte]
  split <;> rfl

theorem evolves_execute (call : SystemCall) (parameter : UInt16) (s : Station) :
    Evolves s.disk (call.execute parameter s).1.disk := by
  by_cases hcall : IsFileCall call
  case pos =>
    obtain ⟨f, found, hexecute, houtcome, -⟩ := exists_outcome hcall parameter s
    rw [hexecute, Station.onFiles_parts]
    exact houtcome.evolves
  case neg =>
    cases call with
    | consoleInput => exact .of_drives_eq (congrArg DiskSystem.drives (disk_readByte s))
    | selectDisk =>
      simp only [execute]
      split
      case h_1 e hselected =>
        rw [eq_of_select hselected]
        exact .of_drives_eq rfl
      case h_2 => exact .of_drives_eq rfl
    | systemReset | resetDisks | consoleOutput | printString | readLine | consoleStatus | version
    | currentDisk | setTransfer | getUser | setUser => exact .of_drives_eq rfl
    | openFile | closeFile | searchFirst | searchNext | deleteFiles | readSequential
    | writeSequential | makeFile | renameFile => exact absurd (by decide) hcall

theorem evolves_perform (function : UInt8) (parameter : UInt16) (s : Station) :
    Evolves s.disk (perform function parameter s).1.disk := by
  rw [perform]
  split
  case h_1 call hcall => exact evolves_execute call parameter s
  case h_2 hunknown => exact .of_drives_eq rfl

end SystemCall

namespace DiskSystem

open Drive

/-- The states that a disk system gets into whose drives are in memory. -/
inductive Reachable : DiskSystem → Prop
  /-- The drives are what operations have made of empty ones. -/
  | ofDrives {drives : List Drive}
      (h : ∀ drive ∈ drives, ∃ operations, drive = (memory .empty).after operations) :
      Reachable (.ofDrives drives)
  /-- A system call, whatever the memory and the console hold. -/
  | call {s : Station} (h : Reachable s.disk) (function : UInt8) (parameter : UInt16) :
      Reachable (SystemCall.perform function parameter s).1.disk
  /-- An operation on a drive that is no system call, as the command line has them. -/
  | operate {d : DiskSystem} (h : Reachable d) {index : Nat} {drive : Drive}
      (hdrive : d.drive? index = some drive) (o : Drive.Operation) :
      Reachable (d.setDrive index (drive.perform o).1)
  | select {d e : DiskSystem} (h : Reachable d) {index : Nat} (hselect : d.select index = .ok e) :
      Reachable e
  | reset {d : DiskSystem} (h : Reachable d) : Reachable d.reset

theorem Reachable.inMemory {d : DiskSystem} (h : Reachable d) : d.InMemory := by
  induction h with
  | ofDrives hempty =>
    intro drive hdrive
    obtain ⟨operations, rfl⟩ := hempty drive hdrive
    exact inMemory_empty.after operations
  | call h function parameter ih =>
    exact ih.of_evolves (SystemCall.evolves_perform function parameter _)
  | operate h hdrive o ih => exact ih.of_evolves (evolves_setDrive hdrive ⟨[o], rfl⟩)
  | select h hselect ih =>
    rw [eq_of_select hselect]
    exact ih
  | reset h ih => exact ih

end DiskSystem

namespace SystemCall

open DiskSystem

/-- The calls that select a drive and that work on files. -/
def IsDiskCall (call : SystemCall) : Prop :=
  call = selectDisk ∨ IsFileCall call

instance : DecidablePred IsDiskCall := fun _ => inferInstanceAs (Decidable (_ ∨ _))

/-- Their functions have the numbers from 14 to 23. -/
theorem exists_isDiskCall {function : UInt8} (hlow : 14 ≤ function.toNat)
    (hhigh : function.toNat ≤ 23) : ∃ call, ofFunction? function = some call ∧ IsDiskCall call := by
  rw [ofFunction?]
  interval_cases function.toNat
  all_goals exact ⟨_, rfl, by decide⟩

theorem execute_of_refused {s : Station} (hd : s.disk.InMemory) {call : SystemCall}
    (hcall : IsDiskCall call) (parameter : UInt16)
    (hrefused : (call.execute parameter s).2 ≠ Answer.success) :
    ∃ found, (call.execute parameter s).1 = { s with disk := { s.disk with found } } := by
  rcases hcall with rfl | hcall
  · simp only [execute] at hrefused ⊢
    split at hrefused
    · exact absurd rfl hrefused
    · exact ⟨s.disk.found, rfl⟩
  · obtain ⟨f, found, hexecute, houtcome, -⟩ := exists_outcome hcall parameter s
    rw [hexecute, Station.onFiles_parts] at hrefused ⊢
    obtain ⟨hmemory, hdisk⟩ := houtcome.of_refused hd hrefused
    exact ⟨found, by rw [hmemory, hdisk]⟩

/-- Refused disk calls change nothing: neither the memory, the control block and the transfer
buffer included, nor any drive, nor the current drive, the transfer address and the user number,
nor the console. -/
theorem refused_changes_nothing {s : Station} (h : s.disk.Reachable) {function : UInt8}
    (hlow : 14 ≤ function.toNat) (hhigh : function.toNat ≤ 23) (parameter : UInt16)
    (hrefused : (perform function parameter s).2 ≠ 0) :
    let after := (perform function parameter s).1
    after.memory = s.memory ∧ after.disk.drives = s.disk.drives ∧
      after.disk.current = s.disk.current ∧ after.disk.transfer = s.disk.transfer ∧
      after.disk.user = s.disk.user ∧ after.console = s.console ∧ after.usage = s.usage := by
  intro after
  obtain ⟨call, hfunction, hcall⟩ := exists_isDiskCall hlow hhigh
  have hperform : perform function parameter s = call.execute parameter s := by
    rw [perform, hfunction]
  rw [hperform] at hrefused
  obtain ⟨found, hafter⟩ := execute_of_refused h.inMemory hcall parameter hrefused
  have hsame : after = { s with disk := { s.disk with found } } := by
    rw [← hafter, ← hperform]
  rw [hsame]
  exact ⟨rfl, rfl, rfl, rfl, rfl, rfl, rfl⟩

/-- A drive with a file, and a block that has the file open at the end of its last extent. -/
def parkedStation : Station :=
  { Station.ofDrives [(Drive.memory .empty).after [.save "note.txt" #[0x4F]]] with
    memory := FileControlBlock.setPosition (FileControlBlock.write .blank 0x005C 1 "NOTE.TXT")
      0x005C 32768 1 }

/-- The disk is full for that file. -/
theorem refused_changes_nothing_parked :
    parkedStation.disk.Reachable ∧ (perform 21 0x005C parkedStation).2 = 2 ∧
      (perform 21 0x005C parkedStation).1.memory = parkedStation.memory := by
  have hreachable : parkedStation.disk.Reachable := by
    refine .ofDrives fun drive hdrive => ⟨[.save "note.txt" #[0x4F]], ?_⟩
    exact List.mem_singleton.mp hdrive
  have hfull : (perform 21 0x005C parkedStation).2 = 2 := by decide +kernel
  have hrefused : (perform 21 0x005C parkedStation).2 ≠ 0 := by
    rw [hfull]
    decide
  have hkept := refused_changes_nothing hreachable (by decide) (by decide) 0x005C hrefused
  exact ⟨hreachable, hfull, hkept.1⟩

end SystemCall

end Cpm80
