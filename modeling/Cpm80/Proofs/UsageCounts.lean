import Cpm80.Proofs.CommandFrames
import Cpm80.Session

/-!
# What the usage counts say of programs

The counts of instructions, cycles and system calls are what programs have cost. Costs add up in
them, however they are put together: one call after another, or the counts of a whole session at
once. The command line, the editor and BASIC work for the user and leave this part of the counts
alone.
-/
namespace Cpm80

/-! ## Counts by key -/

namespace SortedMap

/-- The sum of the counts under the keys that are selected. -/
def totalOf (p : Nat → Bool) : List (Nat × Nat) → Nat
  | [] => 0
  | e :: rest => (if p e.1 then e.2 else 0) + totalOf p rest

theorem find?_eq_none_of_lt {k : Nat} {counts : List (Nat × Nat)}
    (h : ∀ e ∈ counts, k < e.1) : find? k counts = none := by
  induction counts with
  | nil => rfl
  | cons e rest ih =>
    have hfirst : e.1 ≠ k := Nat.ne_of_gt (h e List.mem_cons_self)
    rw [find?, if_neg hfirst]
    exact ih fun x hx => h x (List.mem_cons_of_mem _ hx)

/-- Adding to the count under a key adds to the sums of the selections that it is in. -/
theorem totalOf_placed (p : Nat → Bool) (k n : Nat) {counts : List (Nat × Nat)}
    (h : Ascending counts) :
    totalOf p (placed k ((find? k counts).getD 0 + n) counts) =
      totalOf p counts + if p k then n else 0 := by
  induction counts with
  | nil => simp [placed, find?, totalOf]
  | cons e rest ih =>
    obtain ⟨hfirst, hrest⟩ := List.pairwise_cons.mp h
    rw [placed]
    split
    case isTrue hbefore =>
      have hnone : find? k (e :: rest) = none := by
        apply find?_eq_none_of_lt
        intro x hx
        rcases List.mem_cons.mp hx with rfl | hx
        · exact hbefore
        · exact Nat.lt_trans hbefore (hfirst x hx)
      simp [hnone, totalOf, Nat.add_comm]
    case isFalse hbefore =>
      split
      case isTrue heq =>
        subst heq
        simp only [find?, if_true, Option.getD_some, totalOf]
        split <;> omega
      case isFalse hne =>
        rw [find?, if_neg hne, totalOf, totalOf, ih hrest]
        omega

end SortedMap

namespace Usage

/-- The counted calls of the functions that are selected. -/
def callsTo (p : Nat → Bool) (u : Usage) : Nat :=
  SortedMap.totalOf p u.systemCalls.entries

theorem callsTo_addSystemCall (p : Nat → Bool) (u : Usage) (function : UInt8) :
    (u.addSystemCall function).callsTo p =
      u.callsTo p + if p function.toNat then 1 else 0 :=
  SortedMap.totalOf_placed p _ 1 u.systemCalls.ascending

theorem totalOf_addCalls (p : Nat → Bool) (calls more : SortedMap Nat Nat) :
    SortedMap.totalOf p (addCalls calls more).entries =
      SortedMap.totalOf p calls.entries + SortedMap.totalOf p more.entries := by
  unfold addCalls
  generalize more.entries = entries
  induction entries generalizing calls with
  | nil => rfl
  | cons e rest ih =>
    have hone : SortedMap.totalOf p (calls.insert e.1 ((calls.get? e.1).getD 0 + e.2)).entries =
        SortedMap.totalOf p calls.entries + if p e.1 then e.2 else 0 :=
      SortedMap.totalOf_placed p e.1 e.2 calls.ascending
    rw [List.foldl_cons, ih, hone, SortedMap.totalOf, Nat.add_assoc]

theorem callsTo_add (p : Nat → Bool) (u v : Usage) :
    (u.add v).callsTo p = u.callsTo p + v.callsTo p :=
  totalOf_addCalls p u.systemCalls v.systemCalls

end Usage

/-! ## What works for the user -/

/-- The part of the counts that tells what programs have cost. -/
structure Work where
  instructions : Nat
  cycles : Nat
  systemCalls : SortedMap Nat Nat

def Usage.work (u : Usage) : Work :=
  ⟨u.instructions, u.cycles, u.systemCalls⟩

theorem Usage.work_addAssembly (u : Usage) (clean : Bool) :
    (u.addAssembly clean).work = u.work := by
  cases clean <;> rfl

namespace Station

def work (s : Station) : Work :=
  s.usage.work

variable (s : Station)

@[simp] theorem work_onConsole (f : Console → Console) : (s.onConsole f).work = s.work := rfl

@[simp] theorem work_print (text : String) : (s.print text).work = s.work := rfl

@[simp] theorem work_printLine (text : String) : (s.printLine text).work = s.work := rfl

@[simp] theorem work_onDisk (f : DiskSystem → DiskSystem) : (s.onDisk f).work = s.work := rfl

@[simp] theorem work_addAssembly (clean : Bool) :
    (s.onUsage fun u => u.addAssembly clean).work = s.work :=
  s.usage.work_addAssembly clean

@[simp] theorem work_printLines (lines : List String) : (s.printLines lines).work = s.work :=
  Frame.foldl work_printLine lines s

theorem frame_work : Frame work :=
  ⟨work_onConsole, work_onDisk, work_addAssembly⟩

end Station

variable (s : Station)

namespace CommandLine

theorem work_loadProgram (word tail : List Char) : (loadProgram word tail s).1.work = s.work := by
  unfold loadProgram
  split
  case h_1 => simp
  case h_2 =>
    dsimp only
    split
    case h_1 => simp
    case h_2 => rfl

theorem work_perform (command : Command) (tail : List Char) :
    (perform command tail s).1.work = s.work := by
  by_cases hprogram : ∃ word, command = .program word
  case pos =>
    obtain ⟨word, rfl⟩ := hprogram
    exact work_loadProgram s word tail
  case neg =>
    exact frame_perform Station.frame_work s (fun word hword => hprogram ⟨word, hword⟩) tail

/-- A command line costs nothing by itself. -/
theorem work_execute (line : List Char) : (execute line s).1.work = s.work := by
  unfold execute
  dsimp only
  split
  case isTrue => rfl
  case isFalse => exact work_perform s _ _

end CommandLine

namespace LineEditor

variable (e : LineEditor)

@[simp] theorem work_showPrompt : (e.showPrompt s).work = s.work := rfl

theorem work_start (drive : Nat) (fileName : String) :
    (start drive fileName s).2.work = s.work := by
  unfold start
  simp

theorem work_save : (e.save s).work = s.work := by
  obtain ⟨m, d, c, u⟩ := s
  unfold save
  dsimp only
  split
  all_goals exact Station.work_printLine _ _

theorem work_delete (argument : List Char) : (e.delete argument s).2.work = s.work := by
  unfold delete
  repeat' split
  all_goals simp

theorem work_command (input : List Char) : (e.command input s).2.1.work = s.work := by
  unfold command
  split
  case h_1 => rfl
  case h_2 =>
    dsimp only
    split
    case h_2 => exact work_delete s e _
    case h_3 => exact Station.Frame.foldl (fun s _ => s.work_printLine _) _ s
    case h_4 => exact work_save s e
    all_goals simp

theorem work_handle (input : List Char) : (e.handle input s).2.1.work = s.work := by
  unfold handle
  split
  case isTrue => simp
  case isFalse =>
    have hcommand := work_command s e input
    generalize e.command input s = result at hcommand
    obtain ⟨f, t, status⟩ := result
    cases status with
    | editing | quit => exact hcommand

end LineEditor

namespace Basic.Interpreter

variable (i : Interpreter)

@[simp] theorem work_asking : (i.asking s).2.1.work = s.work := rfl

theorem work_start : (start s).2.work = s.work := by
  unfold start
  simp

theorem work_save (argument : List Char) : (i.save argument s).2.1.work = s.work := by
  obtain ⟨m, d, c, u⟩ := s
  unfold save
  split
  case isTrue => simp
  case isFalse =>
    dsimp only
    split
    case h_1 | h_2 =>
      rw [work_asking, Station.work_printLine]
      rfl
    case h_3 => rfl

theorem work_load (argument : List Char) : (i.load argument s).2.1.work = s.work := by
  unfold load
  dsimp only
  repeat' split
  all_goals simp

theorem work_perform (budget : Nat) (command : Command) (argument : List Char) :
    (perform budget command argument i s).2.1.work = s.work := by
  cases command with
  | new | clear => simp [perform]
  | run =>
    unfold perform
    generalize run budget i s.console = result
    rfl
  | quit => rfl
  | list =>
    rw [perform, work_asking]
    exact Station.Frame.foldl (fun s _ => s.work_printLine _) _ s
  | save => exact work_save s i argument
  | load => exact work_load s i argument
  | help => rw [perform, work_asking, Station.work_printLines]

theorem work_handle (budget : Nat) (line : List Char) :
    (i.handle budget line s).2.1.work = s.work := by
  unfold handle
  split
  case h_2 => rfl
  case h_1 =>
    unfold obey
    dsimp only
    split
    case isTrue => split <;> simp
    case isFalse =>
      split
      case isTrue => simp
      case isFalse =>
        split
        case h_1 command hcommand => exact work_perform s i budget command _
        case h_2 => simp

end Basic.Interpreter

end Cpm80
