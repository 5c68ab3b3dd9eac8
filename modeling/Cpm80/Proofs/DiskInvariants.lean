import Cpm80.Proofs.FreshStart
import Cpm80.Proofs.DiskCalls
import Cpm80.Proofs.ProgramFiles

/-!
# Invariants of disk systems

All that is ever done to a disk system is to operate on one of its drives, to make another one the
current drive, to reset it, and to note where to transfer to, who the user is and what a search
has found. So whatever these steps keep is kept by system calls and the programs that make them,
by the command line, the editor and BASIC, and by everything that is done with a session.
-/
namespace Cpm80

namespace DiskSystem

/-- A property that every step on a disk system keeps. -/
structure Invariant (P : DiskSystem → Prop) : Prop where
  operate : ∀ {d : DiskSystem} {index : Nat} {drive : Drive}, P d → d.drive? index = some drive →
    ∀ operations, P (d.setDrive index (drive.after operations))
  select : ∀ {d : DiskSystem} {index : Nat}, P d → index < d.drives.length →
    P { d with current := index }
  reset : ∀ {d : DiskSystem}, P d → P d.reset
  note : ∀ {d : DiskSystem}, P d → ∀ transfer user found, P { d with transfer, user, found }

namespace Invariant

variable {P : DiskSystem → Prop} {d e : DiskSystem} {m : Memory}

theorem saveFile (hP : Invariant P) (h : P d) (index : Nat) (name : String)
    (content : Array UInt8) : P (d.saveFile index name content).1 := by
  rw [DiskSystem.saveFile]
  split
  case h_1 drive hdrive => exact hP.operate h hdrive [.save name content]
  case h_2 => exact h

theorem of_select {index : Nat} (hP : Invariant P) (h : P d) (hselected : d.select index = .ok e) :
    P e := by
  rw [DiskSystem.select] at hselected
  split at hselected
  case isTrue hlt =>
    cases hselected
    exact hP.select h hlt
  case isFalse => cases hselected

theorem of_outcome {found : List String} {r : Reply} (hP : Invariant P) (h : P d)
    (houtcome : Outcome d m found r) : P r.disk := by
  cases houtcome with
  | refused found answer => exact hP.note h d.transfer d.user found
  | served found n => exact hP.note h d.transfer d.user found
  | operated hdrive hleft =>
    obtain ⟨operations, rfl⟩ := hleft
    exact hP.operate h hdrive operations

end Invariant

end DiskSystem

open DiskSystem

variable {P : DiskSystem → Prop} {s : Station}

/-! ## Stations -/

namespace Station

/-- The disk system has the property. -/
def Keeps (P : DiskSystem → Prop) (s : Station) : Prop :=
  P s.disk

theorem Keeps.onConsole (h : s.Keeps P) (f : Console → Console) : (s.onConsole f).Keeps P := h

theorem Keeps.print (h : s.Keeps P) (text : String) : (s.print text).Keeps P :=
  h.onConsole _

theorem Keeps.printLine (h : s.Keeps P) (text : String) : (s.printLine text).Keeps P :=
  h.onConsole _

theorem Keeps.onUsage (h : s.Keeps P) (f : Usage → Usage) : (s.onUsage f).Keeps P := h

theorem Keeps.foldl {α : Type} (h : s.Keeps P) {f : Station → α → Station}
    (hf : ∀ (s : Station) (x : α), s.Keeps P → (f s x).Keeps P) (xs : List α) :
    (xs.foldl f s).Keeps P := by
  induction xs generalizing s with
  | nil => exact h
  | cons x rest ih => exact ih (hf s x h)

theorem Keeps.printLines (h : s.Keeps P) (lines : List String) : (s.printLines lines).Keeps P :=
  h.foldl (fun _ line h => h.printLine line) lines

theorem keeps_onDisk {f : DiskSystem → DiskSystem} (hf : P (f s.disk)) : (s.onDisk f).Keeps P :=
  hf

end Station

namespace SystemCall

theorem keeps_execute (hP : Invariant P) (h : s.Keeps P) (call : SystemCall)
    (parameter : UInt16) : (call.execute parameter s).1.Keeps P := by
  by_cases hcall : IsFileCall call
  case pos =>
    obtain ⟨f, found, hexecute, houtcome, -⟩ := exists_outcome hcall parameter s
    rw [hexecute, Station.onFiles_parts]
    exact hP.of_outcome h houtcome
  case neg =>
    cases call with
    | systemReset | resetDisks => exact hP.reset h
    | selectDisk =>
      simp only [execute]
      split
      case h_1 d hselected => exact hP.of_select h hselected
      case h_2 => exact h
    | consoleInput =>
      rw [Station.Keeps, execute, disk_readByte]
      exact h
    | setTransfer => exact hP.note h parameter s.disk.user s.disk.found
    | setUser => exact hP.note h s.disk.transfer _ s.disk.found
    | consoleOutput | printString | readLine | consoleStatus | version | currentDisk
    | getUser => exact h
    | openFile | closeFile | searchFirst | searchNext | deleteFiles | readSequential
    | writeSequential | makeFile | renameFile => exact absurd (by decide) hcall

theorem keeps_perform (hP : Invariant P) (h : s.Keeps P) (function : UInt8)
    (parameter : UInt16) : (perform function parameter s).1.Keeps P := by
  rw [perform]
  split
  case h_1 call hcall => exact keeps_execute hP h call parameter
  case h_2 => exact h

end SystemCall

/-! ## The command line -/

namespace CommandLine

theorem keeps_listDirectory (h : s.Keeps P) (argument : List Char) :
    (listDirectory argument s).1.Keeps P := by
  unfold listDirectory
  split
  case h_1 => exact h.printLine _
  case h_2 =>
    split
    case h_1 => exact h.printLine _
    case h_2 =>
      split
      case h_1 => exact h
      case h_2 => exact h.foldl (fun _ _ h => h.printLine _) _

theorem keeps_typeFile (h : s.Keeps P) (argument : List Char) :
    (typeFile argument s).Keeps P := by
  unfold typeFile
  split
  case isTrue => exact h.printLine _
  case isFalse =>
    split
    case h_1 => exact h.printLine _
    case h_2 =>
      dsimp only
      split
      case isTrue => exact h.onConsole _
      case isFalse => exact (h.onConsole _).onConsole _

theorem keeps_eraseAll (hP : Invariant P) (h : s.Keeps P) (drive : Nat)
    (names : List String) : (eraseAll drive s names).Keeps P := by
  induction names generalizing s with
  | nil => exact h
  | cons name rest ih =>
    unfold eraseAll
    split
    case h_1 => exact h
    case h_2 target htarget =>
      have hdeleted : P (s.disk.setDrive drive (target.delete name).1) :=
        hP.operate h htarget [.delete name]
      split
      case h_1 left hdone =>
        rw [hdone] at hdeleted
        exact ih (Station.keeps_onDisk hdeleted)
      case h_2 left e hrefused =>
        rw [hrefused] at hdeleted
        exact ih ((Station.keeps_onDisk hdeleted).printLine _)

theorem keeps_erase (hP : Invariant P) (h : s.Keeps P) (argument : List Char) :
    (erase argument s).Keeps P := by
  unfold erase
  split
  case isTrue => exact h.printLine _
  case isFalse =>
    split
    case h_1 => exact h.printLine _
    case h_2 =>
      split
      case h_1 => exact h.printLine _
      case h_2 => exact keeps_eraseAll hP h _ _

theorem keeps_rename (hP : Invariant P) (h : s.Keeps P) (argument : List Char) :
    (rename argument s).Keeps P := by
  unfold rename
  split
  case h_1 => exact h.printLine _
  case h_2 =>
    split
    case h_2 => exact h.printLine _
    case h_1 drive new _ old hnew hold =>
      split
      case h_1 => exact h.printLine _
      case h_2 target htarget =>
        have hrenamed : P (s.disk.setDrive drive (target.rename old new).1) :=
          hP.operate h htarget [.rename old new]
        have hdone := Station.keeps_onDisk (f := fun d => d.setDrive drive _) hrenamed
        dsimp only
        split
        case h_1 => exact hdone
        case h_2 | h_3 | h_4 => exact hdone.printLine _

theorem keeps_reportSaved (h : s.Keeps P) (result : Option (Option DriveError))
    {success : Station → Station} (hsuccess : s.Keeps P → (success s).Keeps P) :
    (reportSaved result success s).Keeps P := by
  unfold reportSaved
  split
  case h_1 => exact hsuccess h
  case h_2 | h_3 => exact h.printLine _

theorem keeps_assembleFile (hP : Invariant P) (h : s.Keeps P) (argument : List Char) :
    (assembleFile argument s).Keeps P := by
  unfold assembleFile
  split
  case isTrue => exact h.printLine _
  case isFalse =>
    split
    case h_1 => exact h.printLine _
    case h_2 drive name hargument =>
      dsimp only
      split
      case h_1 => exact h.printLine _
      case h_2 content hfound =>
        have hcounted (clean : Bool) := h.onUsage fun u => u.addAssembly clean
        split
        case isTrue =>
          exact ((hcounted _).foldl (fun _ _ h => h.printLine _) _).printLine _
        case isFalse =>
          split
          case isTrue => exact (hcounted _).printLine _
          case isFalse =>
            apply keeps_reportSaved
            · exact Station.keeps_onDisk (hP.saveFile h _ _ _)
            · intro hsaved
              exact hsaved.printLine _

theorem keeps_saveMemory (hP : Invariant P) (h : s.Keeps P) (argument : List Char) :
    (saveMemory argument s).Keeps P := by
  unfold saveMemory
  split
  case h_2 => exact h.printLine _
  case h_1 =>
    split
    case h_1 => exact h.printLine _
    case h_2 =>
      split
      case h_1 => exact h.printLine _
      case h_2 drive name hargument =>
        split
        case isTrue => exact h.printLine _
        case isFalse =>
          split
          case h_1 => exact h.printLine _
          case h_2 image himage =>
            apply keeps_reportSaved _ _ id
            exact Station.keeps_onDisk (hP.saveFile h _ _ _)

theorem keeps_edit (h : s.Keeps P) (argument : List Char) : (edit argument s).1.Keeps P := by
  unfold edit
  dsimp only
  split
  case h_1 => exact h.printLine _
  case h_2 =>
    split
    case isTrue => exact h
    case isFalse => exact h.printLine _

theorem keeps_switchDrive (hP : Invariant P) (h : s.Keeps P) (letter : Char) :
    (switchDrive letter s).Keeps P := by
  unfold switchDrive
  split
  case h_1 d hselected => exact Station.keeps_onDisk (hP.of_select h hselected)
  case h_2 => exact h.printLine _

theorem keeps_loadProgram (h : s.Keeps P) (word tail : List Char) :
    (loadProgram word tail s).1.Keeps P := by
  unfold loadProgram
  split
  case h_1 => exact h.printLine _
  case h_2 =>
    obtain ⟨m, d, c, u⟩ := s
    dsimp only
    split
    case h_1 => exact h.printLine _
    case h_2 => exact h

theorem keeps_perform (hP : Invariant P) (h : s.Keeps P) (command : Command)
    (tail : List Char) : (perform command tail s).1.Keeps P := by
  cases command with
  | directory => exact keeps_listDirectory h tail
  | type => exact keeps_typeFile h tail
  | erase => exact keeps_erase hP h tail
  | rename => exact keeps_rename hP h tail
  | assemble => exact keeps_assembleFile hP h tail
  | save => exact keeps_saveMemory hP h tail
  | edit => exact keeps_edit h tail
  | basic | exit => exact h
  | help => exact h.printLines _
  | switchDrive letter => exact keeps_switchDrive hP h letter
  | program word => exact keeps_loadProgram h word tail

theorem keeps_execute (hP : Invariant P) (h : s.Keeps P) (line : List Char) :
    (execute line s).1.Keeps P := by
  unfold execute
  dsimp only
  split
  case isTrue => exact h
  case isFalse => exact keeps_perform hP h _ _

end CommandLine

/-! ## The editor -/

namespace LineEditor

theorem keeps_start (h : s.Keeps P) (drive : Nat) (fileName : String) :
    (start drive fileName s).2.Keeps P := by
  unfold start
  exact ((((h.printLine _).printLine _).printLine _).printLine _).print _

theorem keeps_save (hP : Invariant P) (h : s.Keeps P) (e : LineEditor) : (e.save s).Keeps P := by
  obtain ⟨m, d, c, u⟩ := s
  have hsaved : Station.Keeps P ⟨m, _, c, u⟩ :=
    hP.saveFile h e.drive e.fileName (TextFile.ofLines e.lines)
  unfold save
  dsimp only
  split
  case h_1 | h_2 | h_3 => exact hsaved.printLine _

theorem keeps_delete (h : s.Keeps P) (e : LineEditor) (argument : List Char) :
    (e.delete argument s).2.Keeps P := by
  unfold delete
  split
  case h_1 =>
    split
    case isTrue => exact h.printLine _
    case isFalse => exact h.printLine _
  case h_2 => exact h.printLine _

theorem keeps_command (hP : Invariant P) (h : s.Keeps P) (e : LineEditor)
    (input : List Char) : (e.command input s).2.1.Keeps P := by
  unfold command
  split
  case h_1 => exact h
  case h_2 letter rest hinput =>
    dsimp only
    split
    case h_1 => exact h.printLine _
    case h_2 => exact keeps_delete h e _
    case h_3 => exact h.foldl (fun _ _ h => h.printLine _) _
    case h_4 => exact keeps_save hP h e
    case h_5 => exact h
    case h_6 => exact h.printLines _
    case h_7 => exact h.printLine _

theorem keeps_handle (hP : Invariant P) (h : s.Keeps P) (e : LineEditor)
    (input : List Char) : (e.handle input s).2.1.Keeps P := by
  unfold handle
  split
  case isTrue => exact h.print _
  case isFalse =>
    have hcommand := keeps_command hP h e input
    generalize e.command input s = result at hcommand
    obtain ⟨f, t, status⟩ := result
    cases status with
    | quit => exact hcommand
    | editing => exact hcommand.print _

end LineEditor

/-! ## BASIC -/

namespace Basic.Interpreter

theorem keeps_start (h : s.Keeps P) : (start s).2.Keeps P :=
  (h.printLines banner).print prompt

theorem keeps_save (hP : Invariant P) (h : s.Keeps P) (i : Interpreter)
    (argument : List Char) : (i.save argument s).2.1.Keeps P := by
  obtain ⟨m, d, c, u⟩ := s
  unfold save
  split
  case isTrue => exact (h.printLine _).print _
  case isFalse =>
    have hsaved : Station.Keeps P ⟨m, _, c, u⟩ :=
      hP.saveFile h d.current (fileName argument) i.program.toFile
    dsimp only
    split
    case h_1 | h_2 => exact (hsaved.printLine _).print _
    case h_3 => exact hsaved

theorem keeps_load (h : s.Keeps P) (i : Interpreter) (argument : List Char) :
    (i.load argument s).2.1.Keeps P := by
  unfold load
  dsimp only
  split
  case h_1 => exact h
  case h_2 =>
    split
    case h_1 | h_2 => exact (h.printLine _).print _

theorem keeps_perform (hP : Invariant P) (h : s.Keeps P) (budget : Nat) (command : Command)
    (argument : List Char) (i : Interpreter) :
    (perform budget command argument i s).2.1.Keeps P := by
  cases command with
  | new | clear => exact (h.printLine _).print _
  | list => exact (h.foldl (fun _ _ h => h.printLine _) _).print _
  | run | quit => exact h
  | save => exact keeps_save hP h i argument
  | load => exact keeps_load h i argument
  | help => exact (h.printLines _).print _

theorem keeps_handle (hP : Invariant P) (h : s.Keeps P) (budget : Nat) (i : Interpreter)
    (line : List Char) : (i.handle budget line s).2.1.Keeps P := by
  unfold handle
  split
  case h_2 => exact h
  case h_1 =>
    unfold obey
    dsimp only
    split
    case isTrue =>
      split
      case h_1 => exact h.print _
      case h_2 => exact (h.printLine _).print _
    case isFalse =>
      split
      case isTrue => exact h.print _
      case isFalse =>
        split
        case h_2 => exact (h.printLine _).print _
        case h_1 command hcommand => exact keeps_perform hP h budget command _ i

end Basic.Interpreter

/-! ## Computers -/

namespace Computer

variable {c : Computer} {budget : Nat}

/-- The disk system has the property. -/
def Keeps (P : DiskSystem → Prop) (c : Computer) : Prop :=
  c.station.Keeps P

theorem keeps_serve (hP : Invariant P) (h : c.Keeps P) : c.serve.Keeps P := by
  obtain ⟨p, s⟩ := c
  have hperformed : (SystemCall.perform p.c p.de s).1.Keeps P :=
    SystemCall.keeps_perform hP h p.c p.de
  unfold serve
  dsimp only
  split
  case isTrue => exact hperformed
  case isFalse => exact hperformed

theorem keeps_executeInstruction (h : c.Keeps P) : c.executeInstruction.1.Keeps P := by
  obtain ⟨p, m, d, con, u⟩ := c
  exact h

theorem keeps_advance (hP : Invariant P) (h : c.Keeps P) : c.advance.1.Keeps P := by
  have hadvances := c.advances
  generalize c.advance = result at hadvances
  cases hadvances with
  | halted | waits => exact h
  | serves => exact keeps_serve hP h
  | executes => exact keeps_executeInstruction h

theorem keeps_stop (hP : Invariant P) (h : c.Keeps P) : (c.stop budget).Keeps P := by
  induction budget, c using run_induction with
  | zero c =>
    rw [stop_zero]
    exact h
  | @executed budget cost c d hb hc ih =>
    have hnext := keeps_advance hP h
    rw [hc] at hnext
    rw [stop_executed hb hc]
    exact ih hnext
  | halted hc =>
    rw [stop_halted hc]
    exact h
  | waiting hb hc =>
    rw [stop_waiting hc]
    exact h

end Computer

/-! ## Sessions -/

namespace Session

variable {s : Session}

/-- The disk system has the property. -/
def Keeps (P : DiskSystem → Prop) (s : Session) : Prop :=
  s.computer.Keeps P

theorem keeps_printPrompt (h : s.Keeps P) : s.printPrompt.Keeps P := by
  obtain ⟨⟨p, st⟩, n, i, w, o, m⟩ := s
  unfold printPrompt
  dsimp only
  split
  case h_1 prompt _ => exact Station.Keeps.print h prompt
  case h_2 => exact h

theorem keeps_settlePrompt (h : s.Keeps P) (halted : Bool) : (s.settlePrompt halted).Keeps P := by
  unfold settlePrompt
  split
  case isTrue => exact keeps_printPrompt (Station.Keeps.onConsole h _)
  case isFalse => exact h

theorem keeps_ranFor (hP : Invariant P) (h : s.Keeps P) (budget : Nat) :
    (s.ranFor budget).Keeps P :=
  Station.Keeps.onUsage (Computer.keeps_stop hP h) _

theorem keeps_resume (hP : Invariant P) (h : s.Keeps P) (budget : Nat) :
    (s.resume budget).1.Keeps P := by
  rw [resume_fst]
  exact keeps_settlePrompt (keeps_ranFor hP h budget) _

theorem keeps_start (h : s.Keeps P) (entry : UInt16) : (s.start entry).Keeps P := by
  obtain ⟨⟨p, m, d, c, u⟩, n, i, w, o, mode⟩ := s
  exact h

theorem keeps_run (hP : Invariant P) (h : s.Keeps P) (entry : Option UInt16) (budget : Nat) :
    (s.run entry budget).1.Keeps P := by
  cases entry with
  | none => exact keeps_resume hP h budget
  | some entry => exact keeps_resume hP (keeps_start h entry) budget

theorem keeps_step (hP : Invariant P) (h : s.Keeps P) : s.step.1.Keeps P := by
  obtain ⟨c, n, i, w, o, m⟩ := s
  have hnext := Computer.keeps_advance hP h
  unfold step
  dsimp only
  split
  case h_1 hc | h_2 hc | h_3 hc =>
    rw [hc] at hnext
    exact hnext

theorem keeps_reset (hP : Invariant P) (h : s.Keeps P) : s.reset.Keeps P := by
  obtain ⟨⟨p, m, d, c, u⟩, n, i, w, o, mode⟩ := s
  cases mode with
  | commandLine | editor | basic | exited => exact hP.reset h

theorem keeps_load (h : s.Keeps P) (a : UInt16) (bytes : List UInt8) :
    (s.load a bytes).1.Keeps P := by
  obtain ⟨⟨p, m, d, c, u⟩, n, i, w, o, mode⟩ := s
  unfold load
  dsimp only
  split
  case h_1 | h_2 => exact h

theorem keeps_assemble (h : s.Keeps P) (source : List Char) (origin : UInt16) :
    (s.assemble source origin).1.Keeps P := by
  unfold assemble
  dsimp only
  generalize Assembly.ofText source origin = a
  have hcounted : (s.onStation fun st => st.onUsage fun u => u.addAssembly a.isOk).Keeps P := h
  have hloaded := keeps_load hcounted a.origin a.image.toList
  split
  case isTrue =>
    split
    case h_1 hl | h_2 hl =>
      rw [hl] at hloaded
      exact hloaded
  case isFalse => exact hcounted

theorem keeps_follow (hP : Invariant P) (h : s.Keeps P) (outcome : CommandOutcome)
    (budget : Nat) : (s.follow outcome budget).1.Keeps P := by
  cases outcome with
  | done => exact keeps_printPrompt h
  | noLetter | exit => exact h
  | run entry =>
    have hstarted : Keeps P { s.start entry with owesPrompt := true } := keeps_start h entry
    exact keeps_resume hP hstarted budget
  | edit drive name =>
    obtain ⟨⟨p, st⟩, n, i, w, o, m⟩ := s
    exact LineEditor.keeps_start h drive name
  | basic =>
    obtain ⟨⟨p, st⟩, n, i, w, o, m⟩ := s
    exact Basic.Interpreter.keeps_start h

theorem keeps_command (hP : Invariant P) (h : s.Keeps P) (line : List Char) (budget : Nat) :
    (s.command line budget).1.Keeps P := by
  obtain ⟨⟨p, st⟩, n, i, w, o, m⟩ := s
  cases m with
  | exited why => exact h
  | commandLine =>
    have hobeyed : Keeps P ⟨⟨p, (CommandLine.execute line st).1⟩, n, i, w, o, .commandLine⟩ :=
      CommandLine.keeps_execute hP h line
    exact keeps_follow hP hobeyed _ budget
  | editor e =>
    have hhandled := LineEditor.keeps_handle hP h e line
    simp only [command]
    split
    case h_1 e' st' hresult =>
      rw [hresult] at hhandled
      exact hhandled
    case h_2 e' st' hresult =>
      rw [hresult] at hhandled
      exact keeps_printPrompt (s := ⟨⟨p, st'⟩, n, i, w, o, .commandLine⟩) hhandled
  | basic b =>
    have hhandled := Basic.Interpreter.keeps_handle hP h budget b line
    simp only [command]
    split
    case h_1 b' st' hresult =>
      rw [hresult] at hhandled
      exact keeps_printPrompt (s := ⟨⟨p, st'⟩, n, i, w, o, .commandLine⟩) hhandled
    case h_2 b' st' hresult | h_3 b' st' status _ _ hresult =>
      rw [hresult] at hhandled
      exact hhandled

theorem keeps_enterLine (hP : Invariant P) (h : s.Keeps P) (line : List Char) (budget : Nat) :
    (s.enterLine line budget).1.Keeps P := by
  unfold enterLine
  split
  case h_1 | h_2 => exact keeps_command hP h line budget
  case h_3 => exact h
  case h_4 =>
    have htyped : (s.typeLine line).Keeps P := h
    dsimp only
    split
    case isTrue => exact keeps_resume hP htyped budget
    case isFalse => exact htyped

/-- Whether the operation changes the disk system from outside. -/
def Operation.changesDisk : Operation → Bool
  | changeDisk _ => true
  | _ => false

theorem keeps_perform (hP : Invariant P) (h : s.Keeps P) {o : Operation}
    (ho : o.changesDisk = false) : (s.perform o).Keeps P := by
  cases o with
  | reset => exact keeps_reset hP h
  | load a bytes => exact keeps_load h a bytes
  | assemble source origin => exact keeps_assemble h source origin
  | run entry budget => exact keeps_run hP h entry budget
  | step => exact keeps_step hP h
  | enterLine line budget => exact keeps_enterLine hP h line budget
  | command line budget => exact keeps_command hP h line budget
  | type | typeLine | takeOutput | takeUsage | setRegisters => exact h
  | changeDisk f => cases ho

end Session

end Cpm80
