import Cpm80.Proofs.ControlFlow
import Cpm80.Proofs.FreshStart

/-!
# How a program starts

A command line that starts a program gives it fresh registers, the memory as it is with the
program in it, and the disk system as it is. Two sessions that agree on memory, disk system and
console before such a line therefore go through the same states afterwards, however differently
they came there; only their totals tell them apart. The disk system is more than its drives: the
transfer address and the rest of a search are what the program before has left, and they are not
set back for the next one.
-/
namespace Cpm80

theorem Console.behind_empty (c : Console) : c.behind #[] = c := by
  rw [behind, Array.empty_append]

namespace Session

/-! ## Totals -/

/-- The session with its totals set back to nothing. -/
def untold : Session → Session
  | ⟨c, _, _, w, o, m⟩ => ⟨c, 0, 0, w, o, m⟩

section Untold

variable (s : Session)

theorem untold_printPrompt : s.printPrompt.untold = s.untold.printPrompt := by
  obtain ⟨⟨p, st⟩, n, i, w, o, m⟩ := s
  simp only [printPrompt, untold]
  split <;> rfl

theorem untold_settlePrompt (halted : Bool) :
    (settlePrompt halted s).untold = settlePrompt halted s.untold := by
  have howes : s.untold.owesPrompt = s.owesPrompt := rfl
  unfold settlePrompt
  rw [howes]
  split
  · exact untold_printPrompt ({ s with owesPrompt := false }.onConsole Console.endLine)
  · rfl

theorem untold_resume (budget : Nat) :
    (s.resume budget).1.untold = (s.untold.resume budget).1.untold ∧
      (s.resume budget).2 = (s.untold.resume budget).2 := by
  constructor
  · rw [resume_fst, resume_fst, untold_settlePrompt, untold_settlePrompt]
    rfl
  · rfl

theorem untold_run (entry : Option UInt16) (budget : Nat) :
    (s.run entry budget).1.untold = (s.untold.run entry budget).1.untold ∧
      (s.run entry budget).2 = (s.untold.run entry budget).2 := by
  cases entry with
  | none => exact untold_resume s budget
  | some entry => exact untold_resume (s.start entry) budget

theorem untold_step :
    s.step.1.untold = s.untold.step.1.untold ∧ s.step.2 = s.untold.step.2 := by
  obtain ⟨c, n, i, w, o, m⟩ := s
  simp only [step, untold]
  split <;> exact ⟨rfl, rfl⟩

theorem untold_load (a : UInt16) (bytes : List UInt8) :
    (s.load a bytes).1.untold = (s.untold.load a bytes).1.untold ∧
      (s.load a bytes).2 = (s.untold.load a bytes).2 := by
  obtain ⟨⟨p, m, d, c, u⟩, n, i, w, o, mode⟩ := s
  simp only [load, untold]
  split <;> exact ⟨rfl, rfl⟩

theorem untold_assemble (source : List Char) (origin : UInt16) :
    (s.assemble source origin).1.untold = (s.untold.assemble source origin).1.untold ∧
      (s.assemble source origin).2 = (s.untold.assemble source origin).2 := by
  obtain ⟨⟨p, m, d, c, u⟩, n, i, w, o, mode⟩ := s
  simp only [assemble, untold, onStation, Station.onUsage, load]
  split
  · cases m.load _ _ <;> exact ⟨rfl, rfl⟩
  · exact ⟨rfl, rfl⟩

theorem untold_follow (outcome : CommandOutcome) (budget : Nat) :
    (s.follow outcome budget).1.untold = (s.untold.follow outcome budget).1.untold ∧
      (s.follow outcome budget).2 = (s.untold.follow outcome budget).2 := by
  cases outcome with
  | done => exact ⟨(untold_printPrompt s).trans (untold_printPrompt s.untold).symm, rfl⟩
  | run entry =>
    obtain ⟨hrun, hreport⟩ := untold_resume { s.start entry with owesPrompt := true } budget
    exact ⟨hrun, congrArg some hreport⟩
  | noLetter | edit | basic | exit => exact ⟨rfl, rfl⟩

theorem untold_command (line : List Char) (budget : Nat) :
    (s.command line budget).1.untold = (s.untold.command line budget).1.untold ∧
      (s.command line budget).2 = (s.untold.command line budget).2 := by
  obtain ⟨⟨p, st⟩, n, i, w, o, m⟩ := s
  have hprompt (st : Station) :
      (printPrompt ⟨⟨p, st⟩, n, i, w, o, .commandLine⟩).untold =
        (printPrompt ⟨⟨p, st⟩, 0, 0, w, o, .commandLine⟩).untold :=
    (untold_printPrompt _).trans
      (untold_printPrompt ⟨⟨p, st⟩, 0, 0, w, o, .commandLine⟩).symm
  cases m with
  | commandLine =>
    exact untold_follow ⟨⟨p, (CommandLine.execute line st).1⟩, n, i, w, o, .commandLine⟩
      (CommandLine.execute line st).2 budget
  | editor e =>
    simp only [command, untold]
    obtain ⟨e', st', status⟩ := e.handle line st
    cases status with
    | editing => exact ⟨rfl, rfl⟩
    | quit => exact ⟨hprompt st', rfl⟩
  | basic b =>
    simp only [command, untold]
    obtain ⟨b', st', status⟩ := b.handle budget line st
    cases status with
    | ready | awaitingInput | noDrive => exact ⟨rfl, rfl⟩
    | quit => exact ⟨hprompt st', rfl⟩
  | exited why => exact ⟨rfl, rfl⟩

theorem untold_enterLine (line : List Char) (budget : Nat) :
    (s.enterLine line budget).1.untold = (s.untold.enterLine line budget).1.untold ∧
      (s.enterLine line budget).2 = (s.untold.enterLine line budget).2 := by
  unfold enterLine
  have hmode : s.untold.mode = s.mode := rfl
  rw [hmode]
  split
  · exact untold_command s line budget
  · exact untold_command s line budget
  · exact ⟨rfl, rfl⟩
  · dsimp only
    have hawaiting : (s.untold.typeLine line).awaitingInput = (s.typeLine line).awaitingInput := rfl
    rw [hawaiting]
    split
    · obtain ⟨hrun, hreport⟩ := untold_resume (s.typeLine line) budget
      exact ⟨hrun, congrArg some hreport⟩
    · exact ⟨rfl, rfl⟩

/-- Nothing that can be done with a session depends on its totals. -/
theorem untold_perform (o : Operation) :
    (s.perform o).untold = (s.untold.perform o).untold ∧ s.answer o = s.untold.answer o := by
  cases o with
  | reset =>
    obtain ⟨c, n, i, w, o, m⟩ := s
    cases m <;> exact ⟨rfl, rfl⟩
  | load a bytes => exact (untold_load s a bytes).imp id (congrArg Answer.loaded)
  | assemble source origin =>
    exact (untold_assemble s source origin).imp id (congrArg Answer.assembled)
  | run entry budget => exact (untold_run s entry budget).imp id (congrArg Answer.ran)
  | step => exact (untold_step s).imp id (congrArg Answer.stepped)
  | type | typeLine | takeOutput | takeUsage | changeDisk | setRegisters => exact ⟨rfl, rfl⟩
  | enterLine line budget =>
    exact (untold_enterLine s line budget).imp id (congrArg Answer.obeyed)
  | command line budget => exact (untold_command s line budget).imp id (congrArg Answer.obeyed)

end Untold

theorem Unseen.untold {front : Array UInt8} {s t : Session} (h : s.Unseen front t) :
    s.untold.Unseen front t.untold :=
  ⟨h.computer, rfl, rfl, h.awaitingInput, h.owesPrompt, h.mode⟩

/-- The sessions are in the same state. The totals and the usage are left out of account. -/
structure SameButTotals (s t : Session) : Prop where
  cpu : t.computer.cpu = s.computer.cpu
  memory : t.computer.station.memory = s.computer.station.memory
  disk : t.computer.station.disk = s.computer.station.disk
  console : t.computer.station.console = s.computer.station.console
  awaitingInput : t.awaitingInput = s.awaitingInput
  owesPrompt : t.owesPrompt = s.owesPrompt
  mode : t.mode = s.mode

namespace SameButTotals

variable {s t : Session}

theorem iff_unseen : s.SameButTotals t ↔ s.untold.Unseen #[] t.untold := by
  constructor
  · intro h
    exact ⟨⟨h.cpu, h.memory, h.disk, h.console.trans (Console.behind_empty _).symm⟩, rfl, rfl,
      h.awaitingInput, h.owesPrompt, h.mode⟩
  · intro h
    exact ⟨h.computer.cpu, h.computer.station.memory, h.computer.station.disk,
      h.computer.station.console.trans (Console.behind_empty _), h.awaitingInput, h.owesPrompt,
      h.mode⟩

/-- The same can be done with both, and it leaves them in the same state again. -/
theorem perform (h : s.SameButTotals t) (o : Operation) :
    (s.perform o).SameButTotals (t.perform o) ∧ t.answer o = s.answer o := by
  obtain ⟨hs, hsAnswer⟩ := untold_perform s o
  obtain ⟨ht, htAnswer⟩ := untold_perform t o
  rw [iff_unseen, hs, ht, hsAnswer, htAnswer]
  by_cases ho : o = .takeOutput
  · subst ho
    exact (iff_unseen.mp h).perform_takeOutput.imp Unseen.untold id
  · exact ((iff_unseen.mp h).perform ho).imp Unseen.untold id

theorem after (h : s.SameButTotals t) (operations : List Operation) :
    (s.after operations).SameButTotals (t.after operations) ∧
      t.answers operations = s.answers operations := by
  induction operations generalizing s t with
  | nil => exact ⟨h, rfl⟩
  | cons o rest ih =>
    obtain ⟨hlater, hanswer⟩ := h.perform o
    obtain ⟨hend, hanswers⟩ := ih hlater
    exact ⟨hend, by rw [answers, answers, hanswer, hanswers]⟩

end SameButTotals

end Session

/-! ## Starting a program -/

namespace CommandLine

variable {entry : UInt16}

theorem listDirectory_outcome_ne_run (argument : List Char) (s : Station) :
    (listDirectory argument s).2 ≠ .run entry := by
  unfold listDirectory
  repeat' split
  all_goals simp

theorem edit_outcome_ne_run (argument : List Char) (s : Station) :
    (edit argument s).2 ≠ .run entry := by
  unfold edit
  dsimp only
  repeat' split
  all_goals simp

/-- Where a program starts, and that nothing but the memory is changed for it. -/
theorem loadProgram_of_run {word tail : List Char} {s : Station}
    (h : (loadProgram word tail s).2 = .run entry) :
    entry = programStart ∧ (loadProgram word tail s).1.disk = s.disk ∧
      (loadProgram word tail s).1.console = s.console := by
  obtain ⟨m, d, c, u⟩ := s
  unfold loadProgram at h ⊢
  cases hfound : findProgram? d word with
  | none => simp [hfound] at h
  | some image =>
    cases hloaded : m.load programStart image.toList with
    | error e => simp [hfound, hloaded] at h
    | ok loaded =>
      simp only [hfound, hloaded, CommandOutcome.run.injEq] at h
      simp [hloaded, h.symm]

theorem perform_of_run {command : Command} {tail : List Char} {s : Station}
    (h : (perform command tail s).2 = .run entry) :
    entry = programStart ∧ (perform command tail s).1.disk = s.disk ∧
      (perform command tail s).1.console = s.console := by
  cases command with
  | program word => exact loadProgram_of_run h
  | directory => exact absurd h (listDirectory_outcome_ne_run tail s)
  | edit => exact absurd h (edit_outcome_ne_run tail s)
  | _ => cases h

theorem execute_of_run {line : List Char} {s : Station}
    (h : (execute line s).2 = .run entry) :
    entry = programStart ∧ (execute line s).1.disk = s.disk ∧
      (execute line s).1.console = s.console := by
  unfold execute at h ⊢
  dsimp only at h ⊢
  split
  case isTrue hempty =>
    rw [if_pos hempty] at h
    cases h
  case isFalse hword =>
    rw [if_neg hword] at h
    exact perform_of_run h

end CommandLine

namespace Session

/-- The session in which the program that a command line names is about to begin. -/
def launched (line : List Char) (s : Session) : Session :=
  { (s.onStation fun st => (CommandLine.execute line st).1).start CommandLine.programStart with
    owesPrompt := true }

variable {s t : Session} {line : List Char} {entry : UInt16}

theorem command_of_run (hs : s.isAtCommandLine = true)
    (hstarts : (CommandLine.execute line s.computer.station).2 = .run entry) (budget : Nat) :
    s.command line budget =
      (((s.launched line).resume budget).1, some ((s.launched line).resume budget).2) := by
  obtain ⟨⟨p, st⟩, n, i, w, o, m⟩ := s
  obtain rfl : m = .commandLine := isAtCommandLine_iff.mp hs
  obtain ⟨rfl, -, -⟩ := CommandLine.execute_of_run hstarts
  simp only [command, hstarts, follow]
  rfl

/-- A program starts with fresh registers, at the one place where programs start, with its
stack below the system and the warm boot to return to. The disk system is the one that its
predecessor has left. -/
theorem launched_starts (hstarts : (CommandLine.execute line s.computer.station).2 = .run entry) :
    (s.launched line).computer.cpu =
        { Processor.initial with
          sp := Computer.programTop - 2, pc := CommandLine.programStart } ∧
      (s.launched line).computer.station.memory.readWord (Computer.programTop - 2) =
        Computer.warmBoot ∧
      (s.launched line).computer.station.disk = s.computer.station.disk := by
  obtain ⟨⟨p, st⟩, n, i, w, o, m⟩ := s
  obtain ⟨-, hdisk, -⟩ := CommandLine.execute_of_run hstarts
  refine ⟨rfl, Memory.readWord_writeWord _ _ _, hdisk⟩

/-- Programs start alike in sessions that agree on memory, disk system and console. -/
theorem sameButTotals_launched (hs : s.isAtCommandLine = true) (ht : t.isAtCommandLine = true)
    (hmemory : t.computer.station.memory = s.computer.station.memory)
    (hdisk : t.computer.station.disk = s.computer.station.disk)
    (hconsole : t.computer.station.console = s.computer.station.console) (line : List Char) :
    (s.launched line).SameButTotals (t.launched line) := by
  obtain ⟨⟨p, st⟩, n, i, w, o, m⟩ := s
  obtain ⟨⟨p', st'⟩, n', i', w', o', m'⟩ := t
  obtain rfl : m = .commandLine := isAtCommandLine_iff.mp hs
  obtain rfl : m' = .commandLine := isAtCommandLine_iff.mp ht
  have hstation : st.Unseen #[] st' :=
    ⟨hmemory, hdisk, hconsole.trans (Console.behind_empty _).symm⟩
  obtain ⟨u, hexecuted⟩ := (CommandLine.execute_unseen hstation line).1.exists_usage
  rw [Console.behind_empty] at hexecuted
  simp only [launched, onStation, hexecuted]
  exact ⟨rfl, rfl, rfl, rfl, rfl, rfl, rfl⟩

/-- A program does not depend on how its session came to where it is started, but for what the
memory, the console and the disk system have kept of that. Its registers are fresh, its stack is
below the system, and its transfer address is the one that is found there. -/
theorem program_starts_alike (hs : s.isAtCommandLine = true) (ht : t.isAtCommandLine = true)
    (hmemory : t.computer.station.memory = s.computer.station.memory)
    (hdisk : t.computer.station.disk = s.computer.station.disk)
    (hconsole : t.computer.station.console = s.computer.station.console)
    (hstarts : (CommandLine.execute line s.computer.station).2 = .run entry)
    (budget : Nat) (operations : List Operation) :
    let begun := s.launched line
    (s.perform (.command line budget) = (begun.resume budget).1 ∧
      begun.computer.cpu =
        { Processor.initial with
          sp := Computer.programTop - 2, pc := CommandLine.programStart } ∧
      begun.computer.station.memory.readWord (Computer.programTop - 2) = Computer.warmBoot ∧
      begun.computer.station.disk = s.computer.station.disk) ∧
    (s.after (.command line budget :: operations)).SameButTotals
      (t.after (.command line budget :: operations)) ∧
    t.answers (.command line budget :: operations) =
      s.answers (.command line budget :: operations) := by
  intro begun
  have hstartsToo : (CommandLine.execute line t.computer.station).2 = .run entry := by
    have hstation : s.computer.station.Unseen #[] t.computer.station :=
      ⟨hmemory, hdisk, hconsole.trans (Console.behind_empty _).symm⟩
    rw [(CommandLine.execute_unseen hstation line).2, hstarts]
  have hsRun := command_of_run hs hstarts budget
  have htRun := command_of_run ht hstartsToo budget
  obtain ⟨hresumed, hreport⟩ :=
    (sameButTotals_launched hs ht hmemory hdisk hconsole line).perform (.run none budget)
  have hcommanded : (s.perform (.command line budget)).SameButTotals
      (t.perform (.command line budget)) := by
    rw [perform, perform, hsRun, htRun]
    exact hresumed
  have hanswer : t.answer (.command line budget) = s.answer (.command line budget) := by
    simp only [answer, run, Answer.ran.injEq] at hreport
    simp only [answer, hsRun, htRun, hreport]
  obtain ⟨hend, hanswers⟩ := hcommanded.after operations
  refine ⟨⟨by rw [perform, hsRun], launched_starts hstarts⟩, hend, ?_⟩
  rw [answers, answers, hanswer, hanswers]

/-- A program with a stack of its own that reads a record of the file that its argument names. -/
def recordReader : Array UInt8 :=
  #[0x31, 0x00, 0x02, 0x11, 0x5C, 0x00, 0x0E, 0x14, 0xC3, 0x05, 0x00]

/-- A new session with the program and a file for it. -/
def newReader : Session :=
  ofDrives [.memory (.ofList [("R.COM", recordReader), ("X", #[0x41])])]

/-- The command line that has the program read the file. -/
def readX : List Char := ['R', ' ', 'X']

/-- The new session and one in which the release of the system has been asked for. -/
theorem program_starts_alike_newReader :
    newReader.isAtCommandLine = true ∧ (newReader.after (calling 12 0)).isAtCommandLine = true ∧
      (newReader.after (calling 12 0)).instructions = 1 ∧
      ((newReader.after [.command readX 100]).SameButTotals
        ((newReader.after (calling 12 0)).after [.command readX 100])) := by
  have hs : newReader.isAtCommandLine = true := by decide +kernel
  have ht : (newReader.after (calling 12 0)).isAtCommandLine = true := by decide +kernel
  have hstarts : (CommandLine.execute readX newReader.computer.station).2 =
      .run CommandLine.programStart := by decide +kernel
  exact ⟨hs, ht, by decide +kernel, (program_starts_alike hs ht rfl rfl rfl hstarts 100 []).2.1⟩

/-- Records may go elsewhere in a program than the default address, although its session cannot
be told from a new one by its memory, drives, user or console: the transfer address is what a
program before has set. -/
theorem exists_program_starts_unlike :
    ∃ s t : Session, s.Reachable ∧ t.Reachable ∧
      s.isAtCommandLine = true ∧ t.isAtCommandLine = true ∧
      t.computer.station.memory = s.computer.station.memory ∧ t.drives = s.drives ∧
      t.computer.station.disk.current = s.computer.station.disk.current ∧ t.user = s.user ∧
      t.computer.station.console = s.computer.station.console ∧
      ∃ line, (CommandLine.execute line s.computer.station).2 = .run CommandLine.programStart ∧
        (s.launched line).computer.station.disk.transfer = DiskSystem.defaultTransfer ∧
        (t.launched line).computer.station.disk.transfer = 0x0040 ∧
        (t.perform (.command line 100)).computer.station.memory ≠
          (s.perform (.command line 100)).computer.station.memory := by
  refine ⟨newReader, newReader.after (calling 26 0x40), .ofDrives _,
    (Reachable.ofDrives _).after _, by decide +kernel, by decide +kernel, rfl, rfl, rfl, rfl,
    by decide +kernel, readX, by decide +kernel, by decide +kernel, by decide +kernel, ?_⟩
  intro hsame
  have hcell := congrArg (fun m : Memory => m.read 0x40) hsame
  exact absurd hcell (by decide +kernel)

end Session

end Cpm80
