import Cpm80.Drive
import Cpm80.Proofs.FileNames

/-!
# Operations on a drive

All that is ever asked of a drive is one of six operations, and a drive in memory is what a
sequence of them makes of an empty one. Its names are then in normal form, so a name that it
lists is one that it finds, and an operation that it refuses leaves it as it was.
-/
namespace Cpm80

namespace Drive

/-- What can be asked of a drive. -/
inductive Operation
  | save (name : String) (content : Array UInt8)
  | get (name : String)
  | contains (name : String)
  | delete (name : String)
  | rename (old new : String)
  | list

/-- What a drive answers. -/
inductive Result
  | done
  | failed (e : DriveError)
  | content (found : Option (Array UInt8))
  | presence (found : Bool)
  | names (all : List String)
  deriving DecidableEq

def Result.ofError? : Option DriveError → Result
  | none => done
  | some e => failed e

/-- Whether the answer blames the host. -/
def Result.isHostFailure : Result → Bool
  | failed (.host _) => true
  | _ => false

def perform (d : Drive) : Operation → Drive × Result
  | .save name content => (d.save name content).map id .ofError?
  | .get name => (d, .content (d.get? name))
  | .contains name => (d, .presence (d.contains name))
  | .delete name => (d.delete name).map id .ofError?
  | .rename old new => (d.rename old new).map id .ofError?
  | .list => (d, .names d.list)

/-- The drive after operations one after another. -/
def after (d : Drive) (operations : List Operation) : Drive :=
  operations.foldl (fun d o => (d.perform o).1) d

/-- The answers to operations one after another. -/
def results (d : Drive) : List Operation → List Result
  | [] => []
  | o :: rest => (d.perform o).2 :: (d.perform o).1.results rest

@[simp] theorem after_nil (d : Drive) : d.after [] = d := rfl

@[simp] theorem after_cons (d : Drive) (o : Operation) (rest : List Operation) :
    d.after (o :: rest) = (d.perform o).1.after rest := rfl

theorem results_append (d : Drive) (operations more : List Operation) :
    d.results (operations ++ more) = d.results operations ++ (d.after operations).results more := by
  induction operations generalizing d with
  | nil => rfl
  | cons o rest ih => rw [List.cons_append, results, results, ih, List.cons_append, after_cons]

end Drive

/-! ## Files in memory -/

namespace Files

open FileName

variable {f : Files} {name : String}

/-- Every file lies under a name in normal form. -/
def Normal (f : Files) : Prop :=
  ∀ name ∈ f.keys, IsNormal name

instance (f : Files) : Decidable f.Normal :=
  inferInstanceAs (Decidable (∀ name ∈ f.keys, IsNormal name))

theorem normalize_eq_ok_iff {name normal : String} :
    FileName.normalize name = .ok normal ↔ normalize? name = some normal := by
  rw [FileName.normalize]
  split
  case h_1 found hfound => rw [hfound, Except.ok.injEq, Option.some.injEq]
  case h_2 hnone => simp [hnone]

theorem normal_empty : Normal .empty := by
  intro name hname
  cases hname

theorem Normal.insert (h : f.Normal) (hname : IsNormal name) (content : Array UInt8) :
    Normal (f.insert name content) := by
  intro other hother
  rw [SortedMap.mem_keys_iff, SortedMap.contains, SortedMap.get?_insert] at hother
  split at hother
  case isTrue heq => exact heq ▸ hname
  case isFalse hne => exact h other (SortedMap.mem_keys_iff.mpr hother)

theorem Normal.erase (h : f.Normal) (name : String) : Normal (f.erase name) := by
  intro other hother
  rw [SortedMap.mem_keys_iff, SortedMap.contains, SortedMap.get?_erase] at hother
  split at hother
  case isTrue heq => cases hother
  case isFalse hne => exact h other (SortedMap.mem_keys_iff.mpr hother)

theorem Normal.save (h : f.Normal) (name : String) (content : Array UInt8) :
    Normal (f.save name content).1 := by
  rw [Files.save]
  split
  case h_1 e hinvalid => exact h
  case h_2 normal hvalid =>
    exact h.insert (isNormal_of_normalize? (normalize_eq_ok_iff.mp hvalid)) content

theorem Normal.delete (h : f.Normal) (name : String) : Normal (f.delete name).1 := by
  rw [Files.delete]
  split
  case h_1 e hinvalid => exact h
  case h_2 normal hvalid =>
    split
    case isTrue hthere => exact h.erase normal
    case isFalse hmissing => exact h

theorem Normal.rename (h : f.Normal) (old new : String) : Normal (f.rename old new).1 := by
  rw [Files.rename]
  split
  case h_1 e hold => exact h
  case h_2 e hold hnew => exact h
  case h_3 missing taken hold hnew =>
    split
    case isTrue htaken => exact h
    case isFalse hfree =>
      split
      case h_1 hmissing => exact h
      case h_2 content hfound =>
        exact (h.erase _).insert (isNormal_of_normalize? (normalize_eq_ok_iff.mp hnew)) content

/-! ### Refused operations -/

theorem save_of_error {content : Array UInt8} (h : (f.save name content).2.isSome) :
    (f.save name content).1 = f := by
  rw [save] at h ⊢
  split
  case h_1 e hinvalid => rfl
  case h_2 normal hvalid => simp [hvalid] at h

theorem rename_of_error {old new : String} (h : (f.rename old new).2.isSome) :
    (f.rename old new).1 = f := by
  rw [rename] at h ⊢
  split
  case h_1 e hold => rfl
  case h_2 e hold hnew => rfl
  case h_3 missing taken hold hnew =>
    split
    case isTrue htaken => rfl
    case isFalse hfree =>
      split
      case h_1 hmissing => rfl
      case h_2 content hfound => simp [hold, hnew, hfree, hfound] at h

/-- A listed name is one that can be deleted. -/
theorem Normal.delete_eq (h : f.Normal) (hname : name ∈ f.keys) :
    f.delete name = (f.erase name, none) := by
  have hvalid : FileName.normalize name = .ok name := normalize_eq_ok_iff.mpr (h name hname)
  have hthere : f.contains name = true := SortedMap.mem_keys_iff.mp hname
  simp only [Files.delete, hvalid, hthere, if_true]

end Files

namespace Drive

open FileName

/-- A drive in memory with its names in normal form. -/
def InMemory (d : Drive) : Prop :=
  ∃ files : Files, files.Normal ∧ d = memory files

theorem inMemory_empty : InMemory (memory .empty) :=
  ⟨.empty, Files.normal_empty, rfl⟩

variable {d : Drive}

theorem InMemory.perform (h : d.InMemory) (o : Operation) : (d.perform o).1.InMemory := by
  obtain ⟨files, hnormal, rfl⟩ := h
  cases o with
  | save name content => exact ⟨_, hnormal.save name content, rfl⟩
  | delete name => exact ⟨_, hnormal.delete name, rfl⟩
  | rename old new => exact ⟨_, hnormal.rename old new, rfl⟩
  | get name | contains name | list => exact ⟨files, hnormal, rfl⟩

theorem InMemory.save_of_error (h : d.InMemory) {name : String} {content : Array UInt8}
    (herror : (d.save name content).2.isSome) : (d.save name content).1 = d := by
  obtain ⟨files, -, rfl⟩ := h
  exact congrArg memory (Files.save_of_error herror)

theorem InMemory.rename_of_error (h : d.InMemory) {old new : String}
    (herror : (d.rename old new).2.isSome) : (d.rename old new).1 = d := by
  obtain ⟨files, -, rfl⟩ := h
  exact congrArg memory (Files.rename_of_error herror)

theorem InMemory.after (h : d.InMemory) (operations : List Operation) :
    (d.after operations).InMemory := by
  induction operations generalizing d with
  | nil => exact h
  | cons o rest ih => exact ih (h.perform o)

end Drive

end Cpm80
