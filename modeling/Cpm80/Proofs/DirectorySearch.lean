import Cpm80.Proofs.DiskCalls

/-!
# Searching a directory

A search takes a snapshot of the matching names when it starts. Each look after that reports the
next name of the snapshot, whatever the program has done to the drives, the transfer address or
the memory in between; only a reset or a new search puts an end to it. When the snapshot is used
up, a look reports nothing, however often it is repeated.
-/
namespace Cpm80

/-- What a program does: a system call, or anything with its memory. -/
inductive ProgramMove
  | call (function : UInt8) (parameter : UInt16)
  | changeMemory (f : Memory → Memory)

namespace ProgramMove

/-- The move neither resets the disk system nor starts a search. -/
def KeepsSearch : ProgramMove → Prop
  | call function _ => function ≠ 0 ∧ function ≠ 13 ∧ function ≠ 17
  | changeMemory _ => True

/-- Whether the move asks for the next name of the search. -/
def isLook : ProgramMove → Bool
  | call function _ => function = 18
  | changeMemory _ => false

end ProgramMove

namespace Station

def proceed (s : Station) : ProgramMove → Station
  | .call function parameter => (SystemCall.perform function parameter s).1
  | .changeMemory f => s.onMemory f

def afterMoves (s : Station) (moves : List ProgramMove) : Station :=
  moves.foldl proceed s

end Station

/-- A search starts with all names on the drive of the block that match its pattern. -/
theorem DiskSystem.searchFirst_eq {d : DiskSystem} {m : Memory} {fcb : UInt16} {index : Nat}
    {drive : Drive} (hselected : d.selected? m fcb = some (index, drive)) :
    let names := drive.list.filter fun name =>
      FileName.isMatch name (FileControlBlock.name m fcb)
    d.searchFirst m fcb = searchNext { d with found := names } m := by
  intro names
  rw [searchFirst, hselected]
  dsimp only
  rw [filesMatching_eq (drive?_of_selected? hselected)]

namespace SystemCall

open DiskSystem

variable {s : Station}

/-- Only resets and new searches touch what a search has still to report, and each look takes
one name off. -/
theorem found_execute {call : SystemCall} (hreset : call ≠ systemReset)
    (hdisks : call ≠ resetDisks) (hsearch : call ≠ searchFirst) (parameter : UInt16) :
    (call.execute parameter s).1.disk.found =
      if call = searchNext then s.disk.found.tail else s.disk.found := by
  by_cases hcall : IsFileCall call
  case pos =>
    obtain ⟨f, found, hexecute, houtcome, hfound⟩ := exists_outcome hcall parameter s
    rw [hexecute, Station.onFiles_parts, houtcome.found_eq, hfound hsearch]
  case neg =>
    cases call with
    | systemReset => exact absurd rfl hreset
    | resetDisks => exact absurd rfl hdisks
    | consoleInput => exact congrArg DiskSystem.found (disk_readByte s)
    | selectDisk =>
      simp only [execute]
      split
      case h_1 e hselected =>
        rw [eq_of_select hselected]
        rfl
      case h_2 => rfl
    | consoleOutput | printString | readLine | consoleStatus | version | currentDisk | setTransfer
    | getUser | setUser => rfl
    | openFile | closeFile | searchFirst | searchNext | deleteFiles | readSequential
    | writeSequential | makeFile | renameFile => exact absurd (by decide) hcall

theorem found_perform {function : UInt8} (hreset : function ≠ 0) (hdisks : function ≠ 13)
    (hsearch : function ≠ 17) (parameter : UInt16) (s : Station) :
    (perform function parameter s).1.disk.found =
      if function = 18 then s.disk.found.tail else s.disk.found := by
  rw [perform]
  split
  case h_1 call hcall =>
    obtain rfl := number_of_ofFunction? hcall
    have hlook : call.number = 18 ↔ call = searchNext := by cases call <;> decide
    have hkeeps : (call.execute parameter s).1.disk.found =
        if call = searchNext then s.disk.found.tail else s.disk.found :=
      found_execute (fun h => hreset (congrArg number h)) (fun h => hdisks (congrArg number h))
        (fun h => hsearch (congrArg number h)) parameter
    simp only [hkeeps, hlook]
  case h_2 hunknown =>
    rw [if_neg]
    rintro rfl
    cases hunknown

/-- A program that keeps the search takes as many names off it as it looks. -/
theorem found_afterMoves {moves : List ProgramMove} (hkeeps : ∀ move ∈ moves, move.KeepsSearch)
    (s : Station) :
    (s.afterMoves moves).disk.found = s.disk.found.drop (moves.countP ProgramMove.isLook) := by
  induction moves generalizing s with
  | nil => rfl
  | cons move rest ih =>
    obtain ⟨hmove, hrest⟩ := List.forall_mem_cons.mp hkeeps
    have hlater : (s.afterMoves (move :: rest)).disk.found =
        (s.proceed move).disk.found.drop (rest.countP ProgramMove.isLook) :=
      ih hrest (s.proceed move)
    rw [hlater, List.countP_cons]
    cases move with
    | changeMemory f => rfl
    | call function parameter =>
      obtain ⟨hreset, hdisks, hsearch⟩ := hmove
      have hfound : (s.proceed (.call function parameter)).disk.found =
          if function = 18 then s.disk.found.tail else s.disk.found :=
        found_perform hreset hdisks hsearch parameter s
      rw [hfound, ProgramMove.isLook]
      by_cases hlook : function = 18
      · rw [if_pos hlook, if_pos (decide_eq_true hlook), ← List.drop_one, List.drop_drop,
          Nat.add_comm]
      · rw [if_neg hlook, if_neg (by simpa using hlook), Nat.add_zero]

/-- The entry that a look reports for a name. -/
def entryOf (user : UInt8) (name : String) : List UInt8 :=
  user :: FileName.padded name

@[simp] theorem length_entryOf (user : UInt8) (name : String) :
    (entryOf user name).length = 12 := by
  simp [entryOf]

/-- What a look does that has a name to report, or has none: it puts the user number and the
padded name at the transfer address, or it fails and leaves the memory alone. -/
def Reports (next : Option String) (before : Station) (done : Station × UInt16) : Prop :=
  match next with
  | some name =>
    done.2 = Answer.success ∧
      done.1.memory = before.memory.place before.disk.transfer (entryOf before.disk.user name)
  | none => done.2 = Answer.failure ∧ done.1.memory = before.memory

/-- A look with a name to report. -/
theorem exists_onFiles_of_searchNext {f : DiskSystem → Memory → Reply} {name : String}
    {rest : List String}
    (h : f s.disk s.memory = DiskSystem.searchNext { s.disk with found := name :: rest } s.memory) :
    ∃ left : Station, s.onFiles f = (left, Answer.success) ∧
      left.disk = { s.disk with found := rest } ∧
      left.memory = s.memory.place s.disk.transfer (entryOf s.disk.user name) :=
  ⟨_, Station.onFiles_eq h, rfl, by dsimp only [entryOf]⟩

theorem reports_of_searchNext {f : DiskSystem → Memory → Reply} {found : List String}
    (h : f s.disk s.memory = DiskSystem.searchNext { s.disk with found } s.memory) :
    Reports found[0]? s (s.onFiles f) := by
  cases found with
  | nil =>
    rw [Station.onFiles_eq h]
    exact ⟨rfl, rfl⟩
  | cons name rest =>
    obtain ⟨left, hleft, -, hmemory⟩ := exists_onFiles_of_searchNext h
    rw [hleft]
    exact ⟨rfl, hmemory⟩

theorem perform_search (fcb : UInt16) (s : Station) :
    perform 17 fcb s = s.onFiles fun d m => d.searchFirst m fcb := rfl

theorem perform_look (parameter : UInt16) (s : Station) :
    perform 18 parameter s = s.onFiles fun d m => d.searchNext m := rfl

theorem reports_look (parameter : UInt16) (s : Station) :
    Reports s.disk.found[0]? s (perform 18 parameter s) :=
  reports_of_searchNext rfl

/-- A search reports the names that match at its start, in ascending order and each of them once,
whatever the program does between its looks, and nothing after the last. -/
theorem search_reports_snapshot {s : Station} {fcb : UInt16} {index : Nat} {drive : Drive}
    (hselected : s.disk.selected? s.memory fcb = some (index, drive)) :
    let names := drive.list.filter fun name =>
      FileName.isMatch name (FileControlBlock.name s.memory fcb)
    names.Pairwise (· < ·) ∧
      Reports names[0]? s (perform 17 fcb s) ∧
      ∀ moves : List ProgramMove, (∀ move ∈ moves, move.KeepsSearch) → ∀ parameter : UInt16,
        let before := (perform 17 fcb s).1.afterMoves moves
        Reports names[moves.countP ProgramMove.isLook + 1]? before
          (perform 18 parameter before) := by
  intro names
  have hsearch : s.disk.searchFirst s.memory fcb =
      DiskSystem.searchNext { s.disk with found := names } s.memory := searchFirst_eq hselected
  have hleft : (perform 17 fcb s).1.disk.found = names.tail := by
    have houtcome := outcome_searchNext { s.disk with found := names } s.memory
    rw [← houtcome.found_eq, ← hsearch]
    exact congrArg (·.1.disk.found) (s.onFiles_parts fun d m => d.searchFirst m fcb)
  refine ⟨drive.files.ascending_keys.filter _, reports_of_searchNext hsearch, ?_⟩
  intro moves hkeeps parameter before
  have hnext : before.disk.found[0]? = names[moves.countP ProgramMove.isLook + 1]? := by
    rw [found_afterMoves hkeeps, hleft, ← List.drop_one, List.drop_drop, List.getElem?_drop,
      Nat.add_zero, Nat.add_comm]
  rw [← hnext]
  exact reports_look parameter before

/-- A drive with two texts, and a block with a pattern for both. -/
def twoTexts : Station :=
  { Station.ofDrives [(Drive.memory .empty).after [.save "B.TXT" #[], .save "A.TXT" #[]]] with
    memory := FileControlBlock.write .blank 0x005C 0 "*.TXT" }

/-- After the first is reported both are deleted, and the second is reported nonetheless. -/
theorem search_reports_snapshot_of_deleted :
    let deleted := (perform 17 0x005C twoTexts).1.afterMoves [.call 19 0x005C]
    deleted.disk.drives.all (fun drive => drive.list.isEmpty) ∧
      Reports (some "B.TXT") deleted (perform 18 0 deleted) := by
  intro deleted
  have hselected : twoTexts.disk.selected? twoTexts.memory 0x005C =
      some (0, (Drive.memory .empty).after [.save "B.TXT" #[], .save "A.TXT" #[]]) := by
    rfl
  have hkeeps : ∀ move ∈ [ProgramMove.call 19 0x005C], move.KeepsSearch := by
    intro move hmove
    obtain rfl := List.mem_singleton.mp hmove
    exact ⟨by decide, by decide, by decide⟩
  have hreports := (search_reports_snapshot hselected).2.2 _ hkeeps 0
  refine ⟨by decide +kernel, ?_⟩
  have hsecond : (((Drive.memory .empty).after [.save "B.TXT" #[], .save "A.TXT" #[]]).list.filter
      fun name => FileName.isMatch name (FileControlBlock.name twoTexts.memory 0x005C))[1]? =
        some "B.TXT" := by
    decide +kernel
  rwa [← hsecond]

end SystemCall

end Cpm80
