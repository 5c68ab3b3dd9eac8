import Cpm80.Proofs.ParkedReads
import Cpm80.Proofs.ProgramStarts
import Cpm80.Proofs.RunBounds

/-!
# The prompt after a program

A program that is started from the command line owes it a prompt. Whatever has the program go on
shows what the program writes, and behind that the session itself writes the end of a line and the
prompt, if a run ends with the processor halted and the prompt is still owed. So it is written once,
and never as long as the processor is not halted. A step that halts the processor is no run: the
prompt is owed then until there is one.
-/
namespace Cpm80.Session

variable {s t : Session} {o : Operation} {operations : List Operation}

/-! ## Going on -/

namespace Operation

/-- Whether the operation has the program go on that has been started. -/
def goesOn : Operation → Bool
  | run none _ | step | enterLine _ _ => true
  | _ => false

def isRun : Operation → Bool
  | run _ _ => true
  | _ => false

end Operation

/-- Whether the operation is a run of the program: a line is followed by one if the program waits
for it. -/
def runs (s : Session) : Operation → Bool
  | .run _ _ => true
  | .enterLine _ _ => s.isAtCommandLine && s.awaitingInput
  | _ => false

/-- The computer as the program leaves it in an operation. -/
def leftByProgram (s : Session) : Operation → Computer
  | .run _ budget => s.computer.stop budget
  | .step => s.computer.advance.1
  | .enterLine line budget =>
    if s.runs (.enterLine line budget) then (s.typeLine line).computer.stop budget else s.computer
  | _ => s.computer

/-- What the session itself writes in an operation, behind what the program has written. -/
def ownOutput (s : Session) (o : Operation) : List UInt8 :=
  (s.perform o).unseen.drop (s.leftByProgram o).station.console.output.size

/-- What the session itself writes in each of the operations one after another. -/
def ownOutputs (s : Session) : List Operation → List (List UInt8)
  | [] => []
  | o :: rest => s.ownOutput o :: (s.perform o).ownOutputs rest

/-- The end of a line and the prompt of the current drive, if that has a letter. -/
def promptOnNewLine (d : DiskSystem) : List UInt8 :=
  [carriageReturn, lineFeed] ++ Utf8.encode ((CommandLine.prompt? d).getD "").toList

/-- What is left of an operation that has the program go on when it is not looked at whether the
prompt is to be given back. -/
structure GoneOn (s : Session) (o : Operation) (t : Session) : Prop where
  cpu : t.computer.cpu = (s.leftByProgram o).cpu
  disk : t.computer.station.disk = (s.leftByProgram o).station.disk
  shown : t.unseen = (s.leftByProgram o).station.console.output.toList
  owesPrompt : t.owesPrompt = s.owesPrompt
  mode : t.mode = s.mode

/-- Neither the editor nor BASIC is open. -/
def Clear (s : Session) : Prop :=
  s.mode = .commandLine ∨ ∃ why, s.mode = .exited why

theorem GoneOn.of_left {c : Computer} (hleft : s.leftByProgram o = c)
    (hcpu : t.computer.cpu = c.cpu) (hdisk : t.computer.station.disk = c.station.disk)
    (hshown : t.unseen = c.station.console.output.toList) (howes : t.owesPrompt = s.owesPrompt)
    (hmode : t.mode = s.mode) : s.GoneOn o t := by
  subst hleft
  exact ⟨hcpu, hdisk, hshown, howes, hmode⟩

theorem goneOn_step (s : Session) : s.GoneOn .step s.step.1 := by
  obtain ⟨c, n, i, w, o, m⟩ := s
  have hleft : leftByProgram ⟨c, n, i, w, o, m⟩ .step = c.advance.1 := rfl
  unfold step
  dsimp only
  generalize c.advance = x at hleft
  obtain ⟨d, progress⟩ := x
  cases progress <;> exact .of_left hleft rfl rfl rfl rfl rfl

theorem goneOn_enterLine_of_runs {line : List Char} {budget : Nat}
    (h : s.runs (.enterLine line budget) = true) :
    s.GoneOn (.enterLine line budget) ((s.typeLine line).ranFor budget) ∧
      (s.enterLine line budget).1 = ((s.typeLine line).resume budget).1 := by
  obtain ⟨hat, hawaiting⟩ := Bool.and_eq_true_iff.mp h
  have hleft : s.leftByProgram (.enterLine line budget) =
      (s.typeLine line).computer.stop budget := if_pos h
  refine ⟨.of_left hleft rfl rfl rfl rfl rfl, ?_⟩
  rw [enterLine_of_awaiting (isAtCommandLine_iff.mp hat) hawaiting]

theorem goneOn_enterLine_of_not_runs (hclear : s.Clear) {line : List Char} {budget : Nat}
    (h : s.runs (.enterLine line budget) = false) :
    s.GoneOn (.enterLine line budget) (s.enterLine line budget).1 := by
  have hleft : s.leftByProgram (.enterLine line budget) = s.computer := by
    rw [leftByProgram, h]
    rfl
  unfold enterLine
  rcases hclear with hmode | ⟨why, hmode⟩
  · have hawaiting : s.awaitingInput = false := by
      simpa [runs, isAtCommandLine_iff.mpr hmode] using h
    have htyped : (s.typeLine line).awaitingInput = false := hawaiting
    rw [hmode]
    simp only [htyped, Bool.false_eq_true, if_false]
    exact .of_left hleft rfl rfl rfl rfl rfl
  · rw [hmode]
    exact .of_left hleft rfl rfl rfl rfl rfl

/-- An operation has the program go on, and gives the prompt back if it is a run that ends with the
processor halted. -/
theorem exists_goneOn (h : s.Clear) (ho : o.goesOn = true) :
    ∃ t, s.GoneOn o t ∧ s.perform o = settlePrompt (s.runs o && t.computer.cpu.halted) t := by
  cases o with
  | run start budget =>
    cases start with
    | some entry => cases ho
    | none => exact ⟨s.ranFor budget, ⟨rfl, rfl, rfl, rfl, rfl⟩, resume_fst budget s⟩
  | step => exact ⟨s.step.1, goneOn_step s, (settlePrompt_false _).symm⟩
  | enterLine line budget =>
    cases hruns : s.runs (.enterLine line budget) with
    | true =>
      obtain ⟨hgone, hentered⟩ := goneOn_enterLine_of_runs hruns
      exact ⟨_, hgone, hentered.trans (resume_fst budget _)⟩
    | false =>
      exact ⟨_, goneOn_enterLine_of_not_runs h hruns, (settlePrompt_false _).symm⟩
  | _ => cases ho

theorem unseen_settlePrompt (halted : Bool) (t : Session) :
    (settlePrompt halted t).unseen = t.unseen ++
      if halted ∧ t.owesPrompt then promptOnNewLine t.computer.station.disk else [] := by
  obtain ⟨⟨p, m, d, c, u⟩, n, i, w, o, mode⟩ := t
  unfold settlePrompt
  split
  case isTrue howes =>
    simp only [printPrompt, promptOnNewLine, onConsole, onStation, Station.onConsole]
    cases CommandLine.prompt? d <;>
      simp [unseen, Console.endLine, Console.putBytes, Station.print, Station.onConsole,
        Console.print, Utf8.encode]
  case isFalse hnot => rw [List.append_nil]

theorem owesPrompt_settlePrompt_eq (halted : Bool) (t : Session) :
    (settlePrompt halted t).owesPrompt = (t.owesPrompt && !halted) := by
  cases halted with
  | true => rw [owesPrompt_settlePrompt, Bool.not_true, Bool.and_false]
  | false => rw [settlePrompt_false, Bool.not_false, Bool.and_true]

theorem Clear.settlePrompt (h : t.Clear) (halted : Bool) : (t.settlePrompt halted).Clear := by
  unfold Session.settlePrompt
  split
  · simp only [printPrompt, onConsole, onStation]
    split
    · exact h
    · exact .inr ⟨_, rfl⟩
  · exact h

/-! ## One operation -/

/-- A session whose program is had go on: neither the editor nor BASIC is open, and it does not wait
when its processor is halted. -/
structure Attended (s : Session) : Prop where
  clear : s.Clear
  wakeful : s.Wakeful

theorem attended_launched {line : List Char} (hs : s.isAtCommandLine = true) :
    (s.launched line).Attended where
  clear := .inl (isAtCommandLine_iff.mp hs)
  wakeful := fun _ => rfl

namespace Attended

variable (h : s.Attended) (ho : o.goesOn = true)
include h ho

theorem perform : (s.perform o).Attended where
  clear := by
    obtain ⟨t, hgone, hperform⟩ := exists_goneOn h.clear ho
    have ht : t.Clear := by
      rw [Clear, hgone.mode]
      exact h.clear
    rw [hperform]
    exact ht.settlePrompt _
  wakeful := wakeful_perform h.wakeful o

theorem cpu_perform : (s.perform o).computer.cpu = (s.leftByProgram o).cpu := by
  obtain ⟨t, hgone, hperform⟩ := exists_goneOn h.clear ho
  rw [hperform, cpu_settlePrompt, hgone.cpu]

theorem disk_perform :
    (s.perform o).computer.station.disk = (s.leftByProgram o).station.disk := by
  obtain ⟨t, hgone, hperform⟩ := exists_goneOn h.clear ho
  rw [hperform, (settlePrompt_keeps _ t).2.1, hgone.disk]

theorem owesPrompt_perform : (s.perform o).owesPrompt =
    (s.owesPrompt && !(s.runs o && (s.perform o).computer.cpu.halted)) := by
  obtain ⟨t, hgone, hperform⟩ := exists_goneOn h.clear ho
  rw [h.cpu_perform ho, hperform, owesPrompt_settlePrompt_eq, hgone.owesPrompt, hgone.cpu]

theorem unseen_perform_eq : (s.perform o).unseen =
    (s.leftByProgram o).station.console.output.toList ++
      if (s.runs o && (s.perform o).computer.cpu.halted) ∧ s.owesPrompt then
        promptOnNewLine (s.perform o).computer.station.disk
      else [] := by
  obtain ⟨t, hgone, hperform⟩ := exists_goneOn h.clear ho
  rw [h.cpu_perform ho, h.disk_perform ho, hperform, unseen_settlePrompt, hgone.shown,
    hgone.owesPrompt, hgone.cpu, hgone.disk]

/-- The session itself writes the prompt if it is owed in a run that ends with the processor
halted, and nothing otherwise. -/
theorem ownOutput_eq : s.ownOutput o =
    if (s.runs o && (s.perform o).computer.cpu.halted) ∧ s.owesPrompt then
      promptOnNewLine (s.perform o).computer.station.disk
    else [] := by
  rw [ownOutput, h.unseen_perform_eq ho]
  exact List.drop_left' Array.length_toList

theorem unseen_perform : (s.perform o).unseen =
    (s.leftByProgram o).station.console.output.toList ++ s.ownOutput o := by
  rw [h.ownOutput_eq ho]
  exact h.unseen_perform_eq ho

/-- A halted processor stays as it is, and the drives with it. -/
theorem leftByProgram_of_halted (hhalted : s.computer.cpu.halted = true) :
    (s.leftByProgram o) = s.computer ∧ s.runs o = o.isRun := by
  have hnothing := Computer.advance_of_halted hhalted
  cases o with
  | run start budget => exact ⟨Computer.stop_halted hnothing, rfl⟩
  | step => exact ⟨congrArg Prod.fst hnothing, rfl⟩
  | enterLine line budget =>
    have hruns : s.runs (.enterLine line budget) = false := by
      rw [runs, h.wakeful hhalted, Bool.and_false]
    refine ⟨?_, hruns⟩
    rw [leftByProgram, hruns]
    rfl
  | _ => cases ho

theorem halted_perform (hhalted : s.computer.cpu.halted = true) :
    (s.perform o).computer.cpu.halted = true := by
  rw [h.cpu_perform ho, (h.leftByProgram_of_halted ho hhalted).1]
  exact hhalted

end Attended

/-! ## One operation after another -/

/-- Nothing in any of the operations. -/
def silence (operations : List Operation) : List (List UInt8) :=
  operations.map fun _ => []

theorem ownOutputs_append (s : Session) (front back : List Operation) :
    s.ownOutputs (front ++ back) = s.ownOutputs front ++ (s.after front).ownOutputs back := by
  induction front generalizing s with
  | nil => rfl
  | cons o rest ih =>
    rw [List.cons_append, ownOutputs, ownOutputs, ih]
    rfl

namespace Attended

variable (h : s.Attended) (hgo : ∀ o ∈ operations, o.goesOn = true)
include h hgo

theorem after : (s.after operations).Attended := by
  induction operations generalizing s with
  | nil => exact h
  | cons o rest ih =>
    obtain ⟨hfirst, hrest⟩ := List.forall_mem_cons.mp hgo
    exact ih (h.perform hfirst) hrest

theorem halted_after (hhalted : s.computer.cpu.halted = true) :
    (s.after operations).computer.cpu.halted = true := by
  induction operations generalizing s with
  | nil => exact hhalted
  | cons o rest ih =>
    obtain ⟨hfirst, hrest⟩ := List.forall_mem_cons.mp hgo
    exact ih (h.perform hfirst) hrest (h.halted_perform hfirst hhalted)

/-- Without a debt nothing is given back. -/
theorem ownOutputs_of_not_owed (howes : s.owesPrompt = false) :
    s.ownOutputs operations = silence operations := by
  induction operations generalizing s with
  | nil => rfl
  | cons o rest ih =>
    obtain ⟨hfirst, hrest⟩ := List.forall_mem_cons.mp hgo
    have hnothing : s.ownOutput o = [] := by
      rw [h.ownOutput_eq hfirst, howes]
      simp
    have hlater : (s.perform o).owesPrompt = false := by
      rw [h.owesPrompt_perform hfirst, howes, Bool.false_and]
    rw [ownOutputs, hnothing, ih (h.perform hfirst) hrest hlater]
    rfl

/-- As long as the processor is not halted nothing is given back, and the debt stays. -/
theorem ownOutputs_of_running (hrunning : (s.after operations).computer.cpu.halted = false) :
    s.ownOutputs operations = silence operations ∧
      (s.after operations).owesPrompt = s.owesPrompt := by
  induction operations generalizing s with
  | nil => exact ⟨rfl, rfl⟩
  | cons o rest ih =>
    obtain ⟨hfirst, hrest⟩ := List.forall_mem_cons.mp hgo
    have hnext := h.perform hfirst
    have hstill : (s.perform o).computer.cpu.halted = false := by
      rw [Bool.eq_false_iff]
      intro hhalted
      have hend : ((s.perform o).after rest).computer.cpu.halted = false := hrunning
      rw [hnext.halted_after hrest hhalted] at hend
      cases hend
    have hnothing : s.ownOutput o = [] := by
      rw [h.ownOutput_eq hfirst, hstill]
      simp
    obtain ⟨hsilent, howes⟩ := ih hnext hrest hrunning
    refine ⟨?_, ?_⟩
    · rw [ownOutputs, hnothing, hsilent]
      rfl
    · refine howes.trans ?_
      rw [h.owesPrompt_perform hfirst, hstill]
      simp

/-- A halted processor is looked after by a run only. -/
theorem ownOutputs_of_no_run (hhalted : s.computer.cpu.halted = true)
    (hidle : ∀ o ∈ operations, o.isRun = false) :
    s.ownOutputs operations = silence operations ∧
      (s.after operations).owesPrompt = s.owesPrompt ∧
      (s.after operations).computer.station.disk = s.computer.station.disk := by
  induction operations generalizing s with
  | nil => exact ⟨rfl, rfl, rfl⟩
  | cons o rest ih =>
    obtain ⟨hfirst, hrest⟩ := List.forall_mem_cons.mp hgo
    obtain ⟨hfirstIdle, hrestIdle⟩ := List.forall_mem_cons.mp hidle
    obtain ⟨hleft, hruns⟩ := h.leftByProgram_of_halted hfirst hhalted
    rw [hfirstIdle] at hruns
    have hnothing : s.ownOutput o = [] := by
      rw [h.ownOutput_eq hfirst, hruns]
      simp
    have hdisk : (s.perform o).computer.station.disk = s.computer.station.disk := by
      rw [h.disk_perform hfirst, hleft]
    have howes : (s.perform o).owesPrompt = s.owesPrompt := by
      rw [h.owesPrompt_perform hfirst, hruns]
      simp
    obtain ⟨hsilent, howesRest, hdiskRest⟩ :=
      ih (h.perform hfirst) hrest (h.halted_perform hfirst hhalted) hrestIdle
    refine ⟨?_, howesRest.trans howes, hdiskRest.trans hdisk⟩
    rw [ownOutputs, hnothing, hsilent]
    rfl

end Attended

/-- A run that ends with the processor halted while the prompt is owed gives it back, and nothing is
written after it. -/
theorem Attended.ownOutputs_of_run (h : s.Attended) (ho : o.goesOn = true)
    (hgo : ∀ o ∈ operations, o.goesOn = true) (hruns : s.runs o = true)
    (hhalted : (s.perform o).computer.cpu.halted = true) (howes : s.owesPrompt = true) :
    s.ownOutputs (o :: operations) =
      promptOnNewLine (s.perform o).computer.station.disk :: silence operations := by
  have hprompt : s.ownOutput o = promptOnNewLine (s.perform o).computer.station.disk := by
    rw [h.ownOutput_eq ho, hruns, hhalted, howes]
    simp
  have hpaid : (s.perform o).owesPrompt = false := by
    rw [h.owesPrompt_perform ho, hruns, hhalted, Bool.and_self, Bool.not_true, Bool.and_false]
  rw [ownOutputs, hprompt, (h.perform ho).ownOutputs_of_not_owed hgo hpaid]

/-- A debt that is left when the processor is halted is settled by the first run, whatever its
budget. -/
theorem Attended.ownOutputs_of_run_of_halted (h : s.Attended) {budget : Nat}
    (hgo : ∀ o ∈ operations, o.goesOn = true) (hhalted : s.computer.cpu.halted = true)
    (howes : s.owesPrompt = true) :
    s.ownOutputs (.run none budget :: operations) =
      promptOnNewLine s.computer.station.disk :: silence operations := by
  have hstays : (s.perform (.run none budget)).computer.station.disk = s.computer.station.disk := by
    rw [h.disk_perform rfl, (h.leftByProgram_of_halted rfl hhalted).1]
  rw [h.ownOutputs_of_run rfl hgo rfl (h.halted_perform rfl hhalted) howes, hstays]

theorem Attended.ownOutput_step (h : s.Attended) : s.ownOutput .step = [] := by
  rw [h.ownOutput_eq rfl]
  rfl

/-- What halts the processor is a step or a run. -/
theorem Attended.runs_of_halts (h : s.Attended) (ho : o.goesOn = true)
    (hrunning : s.computer.cpu.halted = false)
    (hhalted : (s.perform o).computer.cpu.halted = true) (hstep : o ≠ .step) :
    s.runs o = true := by
  cases o with
  | run => rfl
  | step => exact absurd rfl hstep
  | enterLine line budget =>
    cases hruns : s.runs (.enterLine line budget) with
    | true => rfl
    | false =>
      rw [h.cpu_perform ho, leftByProgram, hruns] at hhalted
      exact absurd hhalted (by simp [hrunning])
  | _ => cases ho

variable {line : List Char} {entry : UInt16}

/-- A program that a command line has started is had go on by runs, steps and lines that are entered,
the first run being the one that the command line itself makes. What is shown in each of them is
what the program writes and behind it what the session itself writes. That is nothing as long as
the processor is not halted, and if it is halted by a run, also by one after a line, it is once, in
that run, the end of a line and the prompt of the current drive. If it is halted by a step, this is
written in the next run instead, and not before there is one. -/
theorem prompt_given_back (hs : s.isAtCommandLine = true)
    (hstarts : (CommandLine.execute line s.computer.station).2 = .run entry) :
    let begun := s.launched line
    (∀ budget, s.perform (.command line budget) = begun.perform (.run none budget)) ∧
    ∀ before, (∀ o ∈ before, o.goesOn = true) →
      let t := begun.after before
      (∀ o, o.goesOn = true → (t.perform o).unseen =
        (t.leftByProgram o).station.console.output.toList ++ t.ownOutput o) ∧
      (t.computer.cpu.halted = false → begun.ownOutputs before = silence before) ∧
      ∀ o later, o.goesOn = true → (∀ o ∈ later, o.goesOn = true) →
        t.computer.cpu.halted = false → (t.perform o).computer.cpu.halted = true →
        let prompt := promptOnNewLine (t.perform o).computer.station.disk
        (o ≠ .step → begun.ownOutputs (before ++ o :: later) =
          silence before ++ prompt :: silence later) ∧
        (o = .step → (∀ o ∈ later, o.isRun = false) →
          begun.ownOutputs (before ++ o :: later) = silence (before ++ o :: later)) ∧
        (o = .step → ∀ idle budget rest, later = idle ++ .run none budget :: rest →
          (∀ o ∈ idle, o.isRun = false) →
          begun.ownOutputs (before ++ o :: later) =
            silence (before ++ o :: idle) ++ prompt :: silence rest) := by
  intro begun
  refine ⟨fun budget => congrArg Prod.fst (command_of_run hs hstarts budget), ?_⟩
  intro before hbefore t
  have hbegun : begun.Attended := attended_launched hs
  have ht : t.Attended := hbegun.after hbefore
  refine ⟨fun o ho => ht.unseen_perform ho, fun hrunning => ?_, ?_⟩
  · exact (hbegun.ownOutputs_of_running hbefore hrunning).1
  · intro o later ho hlater hrunning hhalted prompt
    obtain ⟨hsilent, howes⟩ := hbegun.ownOutputs_of_running hbefore hrunning
    have hnext := ht.perform ho
    rw [ownOutputs_append, hsilent]
    refine ⟨fun hstep => ?_, ?_, ?_⟩
    · have hruns := ht.runs_of_halts ho hrunning hhalted hstep
      rw [ht.ownOutputs_of_run ho hlater hruns hhalted howes]
    · rintro rfl hidle
      rw [ownOutputs, ht.ownOutput_step, (hnext.ownOutputs_of_no_run hlater hhalted hidle).1]
      simp [silence]
    · rintro rfl idle budget rest rfl hidle
      obtain ⟨hidleGo, hrestGo⟩ := List.forall_mem_append.mp hlater
      obtain ⟨hrun, hrest⟩ := List.forall_mem_cons.mp hrestGo
      have hstillOwes : (t.perform .step).owesPrompt = true := by
        rw [ht.owesPrompt_perform ho, howes]
        rfl
      obtain ⟨hidleSilent, hidleOwes, hdisk⟩ :=
        hnext.ownOutputs_of_no_run hidleGo hhalted hidle
      rw [ownOutputs, ht.ownOutput_step, ownOutputs_append, hidleSilent,
        (hnext.after hidleGo).ownOutputs_of_run_of_halted hrest
          (hnext.halted_after hidleGo hhalted) (hidleOwes.trans hstillOwes), hdisk]
      simp [silence, prompt]

/-- A session on whose drive there is a program that reads a byte and then halts, by the return of
the call to the start of memory. -/
def withReader : Session :=
  ofDrives [.memory (.ofList [("READ.COM", #[0x31, 0x00, 0x02, 0x0E, 0x01, 0xC3, 0x05, 0x00])])]

/-- What is done until the program that reads a byte waits for it. -/
def untilReading : List Operation :=
  [.run none 10, .run none 90, .step]

theorem prompt_given_back_withReader :
    withReader.isAtCommandLine = true ∧
    (CommandLine.execute ['R', 'E', 'A', 'D'] withReader.computer.station).2 =
      .run CommandLine.programStart ∧
    ((withReader.launched ['R', 'E', 'A', 'D']).after untilReading).awaitingInput = true ∧
    (withReader.launched ['R', 'E', 'A', 'D']).ownOutputs
        (untilReading ++ [.enterLine ['X'] 90, .step]) =
      [[], [], [], [0x0D, 0x0A, 0x41, 0x3E], []] := by
  have hs : withReader.isAtCommandLine = true := by decide +kernel
  have hstarts : (CommandLine.execute ['R', 'E', 'A', 'D'] withReader.computer.station).2 =
      .run CommandLine.programStart := by decide +kernel
  have hbefore : ∀ o ∈ untilReading, o.goesOn = true := by decide
  have hlater : ∀ o ∈ [Operation.step], o.goesOn = true := by decide
  obtain ⟨-, -, hends⟩ := (prompt_given_back hs hstarts).2 untilReading hbefore
  have hprompt := (hends (.enterLine ['X'] 90) [.step] rfl hlater (by decide +kernel)
    (by decide +kernel)).1 Operation.noConfusion
  refine ⟨hs, hstarts, by decide +kernel, ?_⟩
  rw [hprompt]
  decide +kernel

/-- A session on whose drive there is a program that is a single `HLT`. -/
def withHalt : Session :=
  ofDrives [.memory (.ofList [("HALT.COM", #[0x76])])]

/-- A step that halts the processor does not give the prompt back. -/
theorem exists_prompt_not_given_back :
    let line := ['H', 'A', 'L', 'T']
    let begun := withHalt.launched line
    let t := begun.perform (.run none 0)
    withHalt.isAtCommandLine = true ∧
    (CommandLine.execute line withHalt.computer.station).2 = .run CommandLine.programStart ∧
    t.computer.cpu.halted = false ∧ (t.perform .step).computer.cpu.halted = true ∧
    promptOnNewLine (t.perform .step).computer.station.disk = [0x0D, 0x0A, 0x41, 0x3E] ∧
    begun.ownOutputs [.run none 0, .step] = [[], []] := by
  decide +kernel

end Cpm80.Session
