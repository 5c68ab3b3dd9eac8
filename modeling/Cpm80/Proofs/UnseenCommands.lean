import Cpm80.Proofs.UnseenOutput
import Cpm80.CommandLine
import Cpm80.LineEditor
import Cpm80.Basic.Interpreter

/-!
# Commands behind output that nobody has seen yet

What the command line, the editor and BASIC do with a line of input does not depend on what has
been shown before and not been looked at: it stays in front of what they show.
-/
namespace Cpm80

/-! ## The command line -/

namespace CommandLine

variable {front : Array UInt8} {s t : Station}

theorem listDirectory_unseen (h : s.Unseen front t) (argument : List Char) :
    (listDirectory argument s).1.Unseen front (listDirectory argument t).1 ∧
      (listDirectory argument t).2 = (listDirectory argument s).2 := by
  unfold listDirectory
  rw [h.disk]
  split
  · exact ⟨h.printLine _, rfl⟩
  split
  · exact ⟨h.printLine _, rfl⟩
  split
  · exact ⟨h, rfl⟩
  · refine ⟨h.foldl ?_ _, rfl⟩
    intro s t name h
    exact h.printLine _

theorem typeFile_unseen (h : s.Unseen front t) (argument : List Char) :
    (typeFile argument s).Unseen front (typeFile argument t) := by
  unfold typeFile
  rw [h.disk]
  split
  · exact h.printLine _
  split
  · exact h.printLine _
  · have hshown (text : List UInt8) := h.onConsole (f := fun c => c.putBytes text)
      fun c => c.putBytes_behind text
    dsimp only
    split
    · exact hshown _
    · exact (hshown _).onConsole Console.endLine_behind

theorem eraseAll_unseen (h : s.Unseen front t) (drive : Nat) (names : List String) :
    (eraseAll drive s names).Unseen front (eraseAll drive t names) := by
  induction names generalizing s t with
  | nil => exact h
  | cons name rest ih =>
    unfold eraseAll
    rw [h.disk]
    split
    · exact h
    dsimp only
    split
    · exact ih (h.onDisk _)
    · exact ih ((h.onDisk _).printLine _)

theorem erase_unseen (h : s.Unseen front t) (argument : List Char) :
    (erase argument s).Unseen front (erase argument t) := by
  unfold erase
  rw [h.disk]
  split
  · exact h.printLine _
  split
  · exact h.printLine _
  split
  · exact h.printLine _
  · exact eraseAll_unseen h _ _

theorem rename_unseen (h : s.Unseen front t) (argument : List Char) :
    (rename argument s).Unseen front (rename argument t) := by
  unfold rename
  rw [h.disk]
  split
  · exact h.printLine _
  split
  · split
    · exact h.printLine _
    · dsimp only
      split
      · exact h.onDisk _
      · exact (h.onDisk _).printLine _
      · exact (h.onDisk _).printLine _
      · exact (h.onDisk _).printLine _
  · exact h.printLine _

theorem reportSaved_unseen (h : s.Unseen front t) (result : Option (Option DriveError))
    {success : Station → Station} (hsuccess : (success s).Unseen front (success t)) :
    (reportSaved result success s).Unseen front (reportSaved result success t) := by
  unfold reportSaved
  split
  · exact hsuccess
  · exact h.printLine _
  · exact h.printLine _

theorem assembleFile_unseen (h : s.Unseen front t) (argument : List Char) :
    (assembleFile argument s).Unseen front (assembleFile argument t) := by
  unfold assembleFile
  rw [h.disk]
  split
  · exact h.printLine _
  split
  · exact h.printLine _
  dsimp only
  split
  · exact h.printLine _
  have hcounted (clean : Bool) := h.onUsage (fun u => u.addAssembly clean)
    (fun u => u.addAssembly clean)
  split
  · refine ((hcounted _).foldl ?_ _).printLine _
    intro s t d h
    exact h.printLine _
  split
  · exact (hcounted _).printLine _
  · rw [(hcounted _).disk]
    apply reportSaved_unseen
    · exact (hcounted _).onDisk _
    · exact ((hcounted _).onDisk _).printLine _

theorem saveMemory_unseen (h : s.Unseen front t) (argument : List Char) :
    (saveMemory argument s).Unseen front (saveMemory argument t) := by
  unfold saveMemory
  rw [h.disk, h.memory]
  split
  · split
    · exact h.printLine _
    split
    · exact h.printLine _
    split
    · exact h.printLine _
    dsimp only
    split
    · exact h.printLine _
    · exact reportSaved_unseen (h.onDisk _) _ (h.onDisk _)
  · exact h.printLine _

theorem edit_unseen (h : s.Unseen front t) (argument : List Char) :
    (edit argument s).1.Unseen front (edit argument t).1 ∧
      (edit argument t).2 = (edit argument s).2 := by
  unfold edit
  dsimp only
  rw [h.disk]
  split
  · exact ⟨h.printLine _, rfl⟩
  split
  · exact ⟨h, rfl⟩
  · exact ⟨h.printLine _, rfl⟩

theorem switchDrive_unseen (h : s.Unseen front t) (letter : Char) :
    (switchDrive letter s).Unseen front (switchDrive letter t) := by
  unfold switchDrive
  rw [h.disk]
  split
  · exact h.onDisk _
  · exact h.printLine _

theorem loadProgram_unseen (h : s.Unseen front t) (word tail : List Char) :
    (loadProgram word tail s).1.Unseen front (loadProgram word tail t).1 ∧
      (loadProgram word tail t).2 = (loadProgram word tail s).2 := by
  unfold loadProgram
  rw [h.disk]
  split
  · exact ⟨h.printLine _, rfl⟩
  · obtain ⟨u, rfl⟩ := h.exists_usage
    dsimp only
    split
    · exact ⟨h.printLine _, rfl⟩
    · exact ⟨⟨rfl, rfl, rfl⟩, rfl⟩

theorem perform_unseen (h : s.Unseen front t) (command : Command) (tail : List Char) :
    (perform command tail s).1.Unseen front (perform command tail t).1 ∧
      (perform command tail t).2 = (perform command tail s).2 := by
  cases command with
  | directory => exact listDirectory_unseen h tail
  | type => exact ⟨typeFile_unseen h tail, rfl⟩
  | erase => exact ⟨erase_unseen h tail, rfl⟩
  | rename => exact ⟨rename_unseen h tail, rfl⟩
  | assemble => exact ⟨assembleFile_unseen h tail, rfl⟩
  | save => exact ⟨saveMemory_unseen h tail, rfl⟩
  | edit => exact edit_unseen h tail
  | basic | exit => exact ⟨h, rfl⟩
  | help => exact ⟨h.printLines _, rfl⟩
  | switchDrive letter => exact ⟨switchDrive_unseen h letter, rfl⟩
  | program word => exact loadProgram_unseen h word tail

theorem execute_unseen (h : s.Unseen front t) (line : List Char) :
    (execute line s).1.Unseen front (execute line t).1 ∧
      (execute line t).2 = (execute line s).2 := by
  unfold execute
  dsimp only
  split
  · exact ⟨h, rfl⟩
  · exact perform_unseen h _ _

end CommandLine

/-! ## The editor -/

namespace LineEditor

variable {front : Array UInt8} {s t : Station}

theorem showPrompt_unseen (h : s.Unseen front t) (e : LineEditor) :
    (e.showPrompt s).Unseen front (e.showPrompt t) :=
  h.print _

theorem start_unseen (h : s.Unseen front t) (drive : Nat) (fileName : String) :
    (start drive fileName s).2.Unseen front (start drive fileName t).2 ∧
      (start drive fileName t).1 = (start drive fileName s).1 := by
  unfold start
  rw [h.disk]
  exact ⟨showPrompt_unseen ((((h.printLine _).printLine _).printLine _).printLine _) _, rfl⟩

theorem delete_unseen (h : s.Unseen front t) (e : LineEditor) (argument : List Char) :
    (e.delete argument s).2.Unseen front (e.delete argument t).2 ∧
      (e.delete argument t).1 = (e.delete argument s).1 := by
  unfold delete
  split
  · split
    · exact ⟨h.printLine _, rfl⟩
    · exact ⟨h.printLine _, rfl⟩
  · exact ⟨h.printLine _, rfl⟩

theorem list_unseen (h : s.Unseen front t) (e : LineEditor) (argument : List Char) :
    (e.list argument s).Unseen front (e.list argument t) := by
  unfold list
  obtain ⟨first, last⟩ := e.listed argument
  dsimp only
  refine h.foldl ?_ _
  intro s t x h
  exact h.printLine _

theorem save_unseen (h : s.Unseen front t) (e : LineEditor) :
    (e.save s).Unseen front (e.save t) := by
  obtain ⟨v, rfl⟩ := h.exists_usage
  obtain ⟨m, d, c, u⟩ := s
  unfold save
  dsimp only
  generalize d.saveFile e.drive e.fileName (TextFile.ofLines e.lines) = saved
  have hsaved : Station.Unseen front ⟨m, saved.1, c, u⟩ ⟨m, saved.1, c.behind front, v⟩ :=
    ⟨rfl, rfl, rfl⟩
  split
  · exact hsaved.printLine _
  · exact hsaved.printLine _
  · exact hsaved.printLine _

theorem command_unseen (h : s.Unseen front t) (e : LineEditor) (input : List Char) :
    (e.command input s).2.1.Unseen front (e.command input t).2.1 ∧
      (e.command input t).1 = (e.command input s).1 ∧
      (e.command input t).2.2 = (e.command input s).2.2 := by
  unfold command
  split
  · exact ⟨h, rfl, rfl⟩
  dsimp only
  split
  · exact ⟨h.printLine _, rfl, rfl⟩
  · obtain ⟨hdeleted, heditor⟩ := delete_unseen h e (Text.trim _)
    exact ⟨hdeleted, heditor, rfl⟩
  · exact ⟨list_unseen h e _, rfl, rfl⟩
  · exact ⟨save_unseen h e, rfl, rfl⟩
  · exact ⟨h, rfl, rfl⟩
  · exact ⟨h.printLines _, rfl, rfl⟩
  · exact ⟨h.printLine _, rfl, rfl⟩

theorem handle_unseen (h : s.Unseen front t) (e : LineEditor) (input : List Char) :
    (e.handle input s).2.1.Unseen front (e.handle input t).2.1 ∧
      (e.handle input t).1 = (e.handle input s).1 ∧
      (e.handle input t).2.2 = (e.handle input s).2.2 := by
  unfold handle
  split
  · exact ⟨showPrompt_unseen h _, rfl, rfl⟩
  · obtain ⟨hstation, heditor, hstatus⟩ := command_unseen h e input
    generalize e.command input s = x at hstation heditor hstatus
    generalize e.command input t = y at hstation heditor hstatus
    obtain ⟨e, s, status⟩ := x
    obtain ⟨e', t, status'⟩ := y
    obtain rfl : e' = e := heditor
    obtain rfl : status' = status := hstatus
    cases status' with
    | quit => exact ⟨hstation, rfl, rfl⟩
    | editing => exact ⟨showPrompt_unseen hstation e', rfl, rfl⟩

end LineEditor

/-! ## BASIC -/

namespace Basic.Interpreter

variable {front : Array UInt8} {s t : Station}

/-- What comes of a line of input for two consoles, of which the second is the first behind
bytes that have not been seen. -/
def behind (front : Array UInt8) (x : Interpreter × Console × Status) :
    Interpreter × Console × Status :=
  (x.1, x.2.1.behind front, x.2.2)

theorem endRun_behind (i : Interpreter) (c : Console) :
    i.endRun (c.behind front) = behind front (i.endRun c) := by
  rw [endRun, Console.print_behind]
  rfl

theorem resume_behind (budget : Nat) (i : Interpreter) (r : Run) (c : Console) :
    resume budget i r (c.behind front) = behind front (resume budget i r c) := by
  induction budget generalizing i r c with
  | zero =>
    unfold resume
    split
    · exact endRun_behind i c
    · rw [Console.printLine_behind, endRun_behind]
  | succ budget ih =>
    unfold resume
    split
    · exact endRun_behind i c
    · dsimp only
      rw [Console.putBytes_behind]
      split
      · exact ih _ _ _
      · exact ih _ _ _
      · exact endRun_behind _ _
      · rfl
      · rw [Console.printLine_behind, endRun_behind]

theorem run_behind (budget : Nat) (i : Interpreter) (c : Console) :
    run budget i (c.behind front) = behind front (run budget i c) := by
  unfold run
  split
  · rw [Console.printLine_behind, Console.print_behind]
    rfl
  · exact resume_behind _ _ _ _

theorem takeReply_behind (budget : Nat) (i : Interpreter) (r : Run) (name : String)
    (line : List Char) (c : Console) :
    takeReply budget i r name line (c.behind front) =
      behind front (takeReply budget i r name line c) := by
  unfold takeReply
  split
  · rw [Console.printLine_behind, Console.putBytes_behind]
    rfl
  · exact resume_behind _ _ _ _

/-- The same comes of a line of input at both stations, but for the bytes in front. -/
def Same (front : Array UInt8) (x y : Interpreter × Station × Status) : Prop :=
  x.2.1.Unseen front y.2.1 ∧ y.1 = x.1 ∧ y.2.2 = x.2.2

theorem asking_same (h : s.Unseen front t) (i : Interpreter) :
    Same front (i.asking s) (i.asking t) :=
  ⟨h.print _, rfl, rfl⟩

theorem save_same (h : s.Unseen front t) (i : Interpreter) (argument : List Char) :
    Same front (i.save argument s) (i.save argument t) := by
  obtain ⟨v, rfl⟩ := h.exists_usage
  obtain ⟨m, d, c, u⟩ := s
  unfold save
  split
  · exact asking_same (h.printLine _) i
  · dsimp only
    generalize d.saveFile d.current (fileName argument) i.program.toFile = saved
    have hsaved : Station.Unseen front ⟨m, saved.1, c, u⟩ ⟨m, saved.1, c.behind front, v⟩ :=
      ⟨rfl, rfl, rfl⟩
    split
    · exact asking_same (hsaved.printLine _) i
    · exact asking_same (hsaved.printLine _) i
    · exact ⟨hsaved, rfl, rfl⟩

theorem load_same (h : s.Unseen front t) (i : Interpreter) (argument : List Char) :
    Same front (i.load argument s) (i.load argument t) := by
  unfold load
  rw [h.disk]
  dsimp only
  split
  · exact ⟨h, rfl, rfl⟩
  split
  · exact asking_same (h.printLine _) i
  · exact asking_same (h.printLine _) _

theorem perform_same (h : s.Unseen front t) (budget : Nat) (command : Command)
    (argument : List Char) (i : Interpreter) :
    Same front (perform budget command argument i s) (perform budget command argument i t) := by
  cases command with
  | new | clear => exact asking_same (h.printLine _) _
  | list =>
    refine asking_same (h.foldl ?_ _) i
    intro s t line h
    exact h.printLine _
  | run =>
    obtain ⟨v, rfl⟩ := h.exists_usage
    obtain ⟨m, d, c, u⟩ := s
    simp only [perform, run_behind]
    exact ⟨⟨rfl, rfl, rfl⟩, rfl, rfl⟩
  | save => exact save_same h i argument
  | load => exact load_same h i argument
  | help => exact asking_same (h.printLines _) i
  | quit => exact ⟨h, rfl, rfl⟩

theorem obey_same (h : s.Unseen front t) (budget : Nat) (i : Interpreter) (line : List Char) :
    Same front (obey budget i line s) (obey budget i line t) := by
  unfold obey
  dsimp only
  split
  · split
    · exact asking_same h _
    · exact asking_same (h.printLine _) i
  split
  · exact asking_same h i
  split
  · exact perform_same h budget _ _ i
  · exact asking_same (h.printLine _) i

theorem handle_same (h : s.Unseen front t) (budget : Nat) (i : Interpreter) (line : List Char) :
    Same front (handle budget i line s) (handle budget i line t) := by
  unfold handle
  split
  · exact obey_same h budget i line
  · obtain ⟨v, rfl⟩ := h.exists_usage
    obtain ⟨m, d, c, u⟩ := s
    simp only [takeReply_behind]
    exact ⟨⟨rfl, rfl, rfl⟩, rfl, rfl⟩

theorem start_same (h : s.Unseen front t) :
    (start s).2.Unseen front (start t).2 ∧ (start t).1 = (start s).1 :=
  ⟨(h.printLines banner).print prompt, rfl⟩

end Basic.Interpreter

end Cpm80
