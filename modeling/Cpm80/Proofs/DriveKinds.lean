import Cpm80.Proofs.DriveOperations

/-!
# The two kinds of drive

A drive on a host directory answers as one in memory does, as long as the host does what it is
asked to. Both then hold the same files at every point, and the answers depend on the files
alone. There is one exception: of a renaming that is wrong twice, because the old name is missing
and the new one is taken, each kind reports the fault that it looks for first.
-/
namespace Cpm80

/-- A renaming that is wrong twice: no file has the old name, another one has the new name. -/
structure Files.Clash (files : Files) (old new missing taken : String) : Prop where
  old_eq : FileName.normalize? old = some missing
  new_eq : FileName.normalize? new = some taken
  missing_eq : files.contains missing = false
  taken_eq : files.contains taken = true

theorem Files.rename_of_clash {files : Files} {old new missing taken : String}
    (h : files.Clash old new missing taken) :
    files.rename old new = (files, some (.alreadyExists taken)) := by
  simp only [rename, normalize_eq_ok_iff.mpr h.old_eq, normalize_eq_ok_iff.mpr h.new_eq,
    h.taken_eq, if_true]

namespace Drive

/-- A drive in memory and one on a directory that hold the same files. -/
inductive Mirrors : (m d : Drive) → Prop
  | intro (d : DirectoryDrive) : Mirrors (memory d.files) (directory d)

theorem mirrors_empty : Mirrors (memory .empty) (directory (.ofHost .empty)) :=
  .intro (.ofHost .empty)

end Drive

namespace DirectoryDrive

open Drive

variable (d : DirectoryDrive)

/-- What an operation of a directory drive comes to next to what it does to the files in
memory: the host has failed, or the outcome and the files are the same. -/
def Agrees (done : DirectoryDrive × Option DriveError) (expected : Files × Option DriveError) :
    Prop :=
  (∃ failure, done.2 = some (.host failure)) ∨ (done.2 = expected.2 ∧ done.1.files = expected.1)

/-- A host failure shows in the answer. -/
theorem Agrees.mirrors {done : DirectoryDrive × Option DriveError}
    {expected : Files × Option DriveError} (h : Agrees done expected)
    (hhost : (Result.ofError? done.2).isHostFailure = false) :
    Mirrors (memory expected.1) (directory done.1) ∧
      Result.ofError? done.2 = Result.ofError? expected.2 := by
  rcases h with ⟨failure, hfails⟩ | ⟨houtcome, hfiles⟩
  · rw [hfails] at hhost
    cases hhost
  · rw [← hfiles, houtcome]
    exact ⟨.intro done.1, rfl⟩

theorem save_agrees (name : String) (content : Array UInt8) :
    Agrees (d.save name content) (d.files.save name content) := by
  rw [save, change, Files.save]
  split
  case h_1 e hinvalid => exact .inr ⟨rfl, rfl⟩
  case h_2 normal hvalid =>
    dsimp only
    split
    case h_1 failure hfails => exact .inl ⟨failure, rfl⟩
    case h_2 host hwritten => exact .inr ⟨rfl, rfl⟩

theorem delete_agrees (name : String) : Agrees (d.delete name) (d.files.delete name) := by
  rw [delete, change, Files.delete]
  split
  case h_1 e hinvalid => exact .inr ⟨rfl, rfl⟩
  case h_2 normal hvalid =>
    by_cases hthere : d.files.contains normal = true
    · rw [if_pos hthere, if_pos hthere]
      dsimp only
      split
      case h_1 hunknown => exact .inr ⟨rfl, rfl⟩
      case h_2 hostName hknown =>
        split
        case h_1 host hremoved => exact .inr ⟨rfl, rfl⟩
        case h_2 hgone => exact .inr ⟨rfl, rfl⟩
        case h_3 failure hother hfails => exact .inl ⟨failure, rfl⟩
    · rw [if_neg hthere, if_neg hthere]
      exact .inr ⟨rfl, rfl⟩

theorem rename_agrees {old new : String}
    (h : ∀ missing taken, ¬d.files.Clash old new missing taken) :
    Agrees (d.rename old new) (d.files.rename old new) := by
  rw [rename, change, Files.rename]
  split
  case h_1 e hold => exact .inr ⟨rfl, rfl⟩
  case h_2 e hold hnew => exact .inr ⟨rfl, rfl⟩
  case h_3 source target hold hnew =>
    cases htaken : d.files.contains target with
    | true =>
      cases hsource : d.files.get? source with
      | none =>
        have hmissing : d.files.contains source = false := by
          rw [SortedMap.contains, hsource, Option.isSome_none]
        exact absurd ⟨Files.normalize_eq_ok_iff.mp hold, Files.normalize_eq_ok_iff.mp hnew,
          hmissing, htaken⟩ (h source target)
      | some content => exact .inr ⟨rfl, rfl⟩
    | false =>
      cases hsource : d.files.get? source with
      | none => exact .inr ⟨rfl, rfl⟩
      | some content =>
        dsimp only
        rw [if_neg Bool.false_ne_true, if_neg Bool.false_ne_true]
        split
        case h_1 failure hfails => exact .inl ⟨failure, rfl⟩
        case h_2 host hrenamed => exact .inr ⟨rfl, rfl⟩

theorem rename_of_clash {d : DirectoryDrive} {old new missing taken : String}
    (h : d.files.Clash old new missing taken) :
    d.rename old new = (d, some (.notFound missing)) := by
  have hmissing : d.files.get? missing = none := by
    simpa [SortedMap.contains] using h.missing_eq
  simp only [rename, change, Files.normalize_eq_ok_iff.mpr h.old_eq,
    Files.normalize_eq_ok_iff.mpr h.new_eq, hmissing]

end DirectoryDrive

namespace Drive

/-- The operation is a renaming that is wrong twice. -/
inductive Clashes (d : Drive) : Operation → (missing taken : String) → Prop
  | rename {old new missing taken : String} (h : d.files.Clash old new missing taken) :
    Clashes d (.rename old new) missing taken

variable {m d : Drive} {o : Operation}

/-- An operation that is no renaming wrong twice has the same answer from both. -/
theorem Mirrors.perform_of_not_clashes (h : Mirrors m d)
    (hclash : ∀ missing taken, ¬m.Clashes o missing taken)
    (hhost : (d.perform o).2.isHostFailure = false) :
    Mirrors (m.perform o).1 (d.perform o).1 ∧ (d.perform o).2 = (m.perform o).2 := by
  obtain ⟨d⟩ := h
  cases o with
  | save name content =>
    simp only [perform, memory_save, directory_save, Prod.map_fst, Prod.map_snd, id_eq] at hhost ⊢
    exact (d.save_agrees name content).mirrors hhost
  | delete name =>
    simp only [perform, memory_delete, directory_delete, Prod.map_fst, Prod.map_snd,
      id_eq] at hhost ⊢
    exact (d.delete_agrees name).mirrors hhost
  | rename old new =>
    have hright : ∀ missing taken, ¬d.files.Clash old new missing taken :=
      fun missing taken hwrong => hclash missing taken (.rename hwrong)
    simp only [perform, memory_rename, directory_rename, Prod.map_fst, Prod.map_snd,
      id_eq] at hhost ⊢
    exact (d.rename_agrees hright).mirrors hhost
  | get name | contains name | list => exact ⟨.intro d, rfl⟩

/-- A renaming that is wrong twice is refused by both, for one fault and for the other. -/
theorem Mirrors.perform_of_clashes (h : Mirrors m d) {missing taken : String}
    (hclash : m.Clashes o missing taken) :
    Mirrors (m.perform o).1 (d.perform o).1 ∧
      (m.perform o).2 = .failed (.alreadyExists taken) ∧
      (d.perform o).2 = .failed (.notFound missing) := by
  obtain ⟨d⟩ := h
  cases hclash with
  | @rename old new _ _ hwrong =>
    have hmemory : d.files.rename old new = (d.files, some (.alreadyExists taken)) :=
      Files.rename_of_clash hwrong
    have hdirectory : d.rename old new = (d, some (.notFound missing)) :=
      DirectoryDrive.rename_of_clash hwrong
    simp only [perform, memory_rename, directory_rename, hmemory, hdirectory]
    exact ⟨.intro d, rfl, rfl⟩

theorem Mirrors.perform (h : Mirrors m d) (hhost : (d.perform o).2.isHostFailure = false) :
    Mirrors (m.perform o).1 (d.perform o).1 := by
  by_cases hclash : ∃ missing taken, m.Clashes o missing taken
  · obtain ⟨missing, taken, hclash⟩ := hclash
    exact (h.perform_of_clashes hclash).1
  · have hright : ∀ missing taken, ¬m.Clashes o missing taken :=
      fun missing taken hwrong => hclash ⟨missing, taken, hwrong⟩
    exact (h.perform_of_not_clashes hright hhost).1

theorem Mirrors.after (h : Mirrors m d) (operations : List Operation)
    (hhost : ∀ r ∈ d.results operations, r.isHostFailure = false) :
    Mirrors (m.after operations) (d.after operations) := by
  induction operations generalizing m d with
  | nil => exact h
  | cons o rest ih =>
    rw [results, List.forall_mem_cons] at hhost
    exact ih (h.perform hhost.1) hhost.2

/-- A new drive in memory and one opened on an empty directory whose host does what it is asked
to answer every operation alike, at every point; but of a missing old name and a taken new name
the drive in memory reports the new one and the drive on the directory the old one. -/
theorem kinds_answer_alike (operations : List Operation) (o : Operation)
    (hhost : ∀ r ∈ (directory (.ofHost .empty)).results (operations ++ [o]),
      r.isHostFailure = false) :
    let m := (memory .empty).after operations
    let d := (directory (.ofHost .empty)).after operations
    ((∀ missing taken, ¬m.Clashes o missing taken) → (d.perform o).2 = (m.perform o).2) ∧
      ∀ missing taken, m.Clashes o missing taken →
        (m.perform o).2 = .failed (.alreadyExists taken) ∧
          (d.perform o).2 = .failed (.notFound missing) := by
  intro m d
  rw [results_append, List.forall_mem_append] at hhost
  obtain ⟨hbefore, hlast⟩ := hhost
  have hmirrors : Mirrors m d := mirrors_empty.after operations hbefore
  have hanswer : (d.perform o).2.isHostFailure = false := hlast _ List.mem_cons_self
  constructor
  · intro hright
    exact (hmirrors.perform_of_not_clashes hright hanswer).2
  · intro missing taken hclash
    exact (hmirrors.perform_of_clashes hclash).2

/-- Two files, the first of which gets another name. -/
def movedOperations : List Operation :=
  [.save "a.txt" #[1], .save "B.TXT" #[2], .rename "A.TXT" " c.txt"]

/-- The first name is gone and the second one is still there. -/
def clashing : Operation := .rename "a.txt" "b.txt"

theorem kinds_answer_alike_clashing :
    (∀ r ∈ (directory (.ofHost .empty)).results (movedOperations ++ [clashing]),
        r.isHostFailure = false) ∧
      ((memory .empty).after movedOperations).Clashes clashing "A.TXT" "B.TXT" ∧
      (((memory .empty).after movedOperations).perform clashing).2 =
        .failed (.alreadyExists "B.TXT") ∧
      (((directory (.ofHost .empty)).after movedOperations).perform clashing).2 =
        .failed (.notFound "A.TXT") := by
  have hhost : ∀ r ∈ (directory (.ofHost .empty)).results (movedOperations ++ [clashing]),
      r.isHostFailure = false := by decide +kernel
  have hclash : ((memory .empty).after movedOperations).Clashes clashing "A.TXT" "B.TXT" :=
    .rename ⟨by decide +kernel, by decide +kernel, by decide +kernel, by decide +kernel⟩
  exact ⟨hhost, hclash, (kinds_answer_alike movedOperations clashing hhost).2 _ _ hclash⟩

/-- So the two kinds cannot be exchanged for each other without a trace. -/
theorem exists_results_ne :
    ∃ operations,
      (∀ r ∈ (directory (.ofHost .empty)).results operations, r.isHostFailure = false) ∧
        (memory .empty).results operations =
          [.done, .failed (.alreadyExists "B.TXT")] ∧
        (directory (.ofHost .empty)).results operations =
          [.done, .failed (.notFound "A.TXT")] :=
  ⟨[.save "B.TXT" #[2], .rename "A.TXT" "B.TXT"], by decide +kernel, by decide +kernel,
    by decide +kernel⟩

end Drive

end Cpm80
