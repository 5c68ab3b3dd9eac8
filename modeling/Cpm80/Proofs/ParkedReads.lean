import Cpm80.Proofs.FreshStart
import Cpm80.Proofs.InputTiming

/-!
# Programs that wait for input

A session that is noted to wait for input stands at the call that the program waits in: whatever
has been done with the session since, its processor has not been touched. So when the program goes
on, the first thing that it does is that read. As long as the read cannot be satisfied nothing
happens, but a line that the user enters always satisfies it.
-/
namespace Cpm80.Session

variable {s t : Session} {d : Computer} {budget cost : Nat} {bytes : List UInt8}

/-! ## The note is right -/

/-- If the session is noted to wait for input, its processor stands at a read. -/
def Parked (s : Session) : Prop :=
  s.awaitingInput = true → s.computer.AtRead

theorem Parked.of_noted (h : s.Parked) (hnoted : s.NotedFrom t) : t.Parked := by
  intro hawaiting
  rcases hnoted hawaiting with hread | ⟨hbefore, hcpu⟩
  · exact hread
  · exact (h hbefore).of_cpu_eq hcpu

theorem parked_ofDrives (drives : List Drive) : (ofDrives drives).Parked := by
  have hblank : Parked { computer := .ofDrives drives } := fun h => by cases h
  exact hblank.of_noted (noted_printPrompt _)

theorem Parked.after (h : s.Parked) {operations : List Operation}
    (hkept : ∀ o ∈ operations, o.setsRegisters = false) : (s.after operations).Parked := by
  induction operations generalizing s with
  | nil => exact h
  | cons o rest ih =>
    obtain ⟨hfirst, hrest⟩ := List.forall_mem_cons.mp hkept
    exact ih (h.of_noted (noted_perform s hfirst)) hrest

/-! ## Going on -/

/-- A run of a session that cannot go on, or for no cycles, leaves everything as it is. -/
theorem resume_of_idle (h : s.computer.advance = (s.computer, .waiting) ∨ budget = 0) :
    s.Ahead [] (s.ranFor budget) ∧ s.computer.used budget = {} := by
  have hstop : s.computer.stop budget = s.computer ∧ s.computer.used budget = {} := by
    rcases h with hwaiting | rfl
    · exact ⟨Computer.stop_waiting hwaiting, Computer.used_waiting hwaiting⟩
    · exact ⟨Computer.stop_zero, Computer.used_zero⟩
  refine ⟨?_, hstop.2⟩
  rw [ranFor, hstop.1, hstop.2]
  exact ⟨⟨rfl, rfl, rfl, (Console.type_nil _).symm⟩, rfl, rfl, rfl, rfl⟩

/-- A run begins with a step, and what is reported about it is the step and the rest. -/
theorem resume_of_step (hne : budget ≠ 0) (h : s.computer.advance = (d, .executed cost)) :
    (s.step.1.resume (budget - cost)).1.Ahead [] (s.resume budget).1 ∧
      (s.resume budget).2.cycles = cost + (s.step.1.resume (budget - cost)).2.cycles ∧
      (s.resume budget).2.instructions =
        1 + (s.step.1.resume (budget - cost)).2.instructions := by
  have hran := (ranFor_step hne h).1
  have hstep : s.step.1.computer = d := by rw [step_of_executed h]
  refine ⟨?_, ?_, ?_⟩
  · rw [resume_fst, resume_fst, hran.computer.cpu]
    exact hran.settlePrompt _
  · rw [(resume_snd _ _).1, (resume_snd _ _).1, hstep, Computer.used_executed hne h]
    rfl
  · rw [(resume_snd _ _).2, (resume_snd _ _).2, hstep, Computer.used_executed hne h]
    rfl

theorem atRead_type (h : s.computer.AtRead) (bytes : List UInt8) :
    (s.type bytes).computer.AtRead :=
  h.of_cpu_eq rfl

/-- A read that what has been typed does not satisfy, or for which there are no cycles, changes
nothing but the queue. -/
theorem resume_type_of_idle (h : s.computer.AtRead)
    (hidle : (s.type bytes).computer.Starved ∨ budget = 0) :
    let resumed := (s.type bytes).resume budget
    s.Ahead bytes resumed.1 ∧ resumed.2.cycles = 0 ∧ resumed.2.instructions = 0 ∧
      (resumed.1.awaitingInput = true ↔ 0 < budget) := by
  intro resumed
  have hcannot := hidle.imp_left Computer.advance_eq_waiting_iff.mpr
  obtain ⟨hran, hused⟩ := resume_of_idle hcannot
  obtain ⟨hcycles, hinstructions⟩ := resume_snd budget (s.type bytes)
  have hrunning : ((s.type bytes).ranFor budget).computer.cpu.halted = false := by
    rw [hran.computer.cpu]
    exact h.running
  have hresumed : resumed.1 = (s.type bytes).ranFor budget := by
    rw [resume_fst, hrunning, settlePrompt_false]
  rw [hused] at hcycles hinstructions
  refine ⟨?_, hcycles, hinstructions, ?_⟩
  · have hahead := (ahead_type s bytes).trans hran
    rw [List.append_nil] at hahead
    exact hresumed ▸ hahead
  · rw [hresumed]
    by_cases hb : budget = 0
    · rw [hb, (ranFor_zero (s.type bytes)).2]
      simp
    · have hwaiting := hcannot.resolve_right hb
      have hparks : ((s.type bytes).ranFor budget).awaitingInput = true :=
        Computer.parks_waiting hb hwaiting
      exact ⟨fun _ => Nat.pos_of_ne_zero hb, fun _ => hparks⟩

/-- A read that is satisfied is what a run does first. -/
theorem resume_type_of_fed (h : s.computer.AtRead) (hfed : ¬(s.type bytes).computer.Starved)
    (hpos : 0 < budget) :
    let typed := s.type bytes
    let read := typed.step.1
    let rest := read.resume (budget - Computer.callCost)
    read = { typed with
      computer := typed.computer.serve
      cycles := typed.cycles + Computer.callCost
      instructions := typed.instructions + 1
      awaitingInput := false } ∧
    rest.1.SameState (typed.resume budget).1 ∧
      (typed.resume budget).2.cycles = Computer.callCost + rest.2.cycles ∧
      (typed.resume budget).2.instructions = 1 + rest.2.instructions := by
  intro typed read rest
  have hserves := (atRead_type h bytes).advance_eq hfed
  obtain ⟨hrest, hcycles, hinstructions⟩ := resume_of_step (Nat.ne_of_gt hpos) hserves
  exact ⟨congrArg Prod.fst (step_of_executed hserves), hrest.sameState, hcycles, hinstructions⟩

/-- A line with its end satisfies every read. -/
theorem not_starved_typeLine (s : Session) (line : List Char) :
    ¬(s.typeLine line).computer.Starved := by
  have hline : (s.typeLine line).computer.station.console.hasLine = true :=
    Console.hasLine_type_carriageReturn _
  intro hstarved
  rcases hstarved.lacks with ⟨-, hempty⟩ | ⟨-, hnone⟩
  · rw [← Console.hasInput_eq_false_iff, Console.hasInput_of_hasLine hline] at hempty
    cases hempty
  · rw [← Console.hasLine_eq_false_iff, hline] at hnone
    cases hnone

theorem typeLine_eq (s : Session) (line : List Char) :
    s.typeLine line = s.type (Utf8.encode line ++ [carriageReturn]) := by
  rw [type_append]
  rfl

/-- At the command line a line goes to the program that waits, which goes on. -/
theorem enterLine_of_awaiting (hmode : s.mode = .commandLine) (h : s.awaitingInput = true)
    (line : List Char) (budget : Nat) :
    s.enterLine line budget =
      (((s.typeLine line).resume budget).1, some ((s.typeLine line).resume budget).2) := by
  have htyped : (s.typeLine line).awaitingInput = true := h
  unfold enterLine
  rw [hmode]
  simp only [htyped, if_true]

/-- Whatever is done with a new session, as long as nobody else sets its registers: if it is noted
to wait for input, its processor stands at a call that reads from the keyboard. Whatever is typed
then, if the read is not satisfied, or there are no cycles for it, a run changes nothing but the
queue; otherwise the run begins with just that read. A line that is entered at the command line is
typed, with its end, and such a run follows; it satisfies the read. -/
theorem awaits_at_read (drives : List Drive) {operations : List Operation}
    (h : ∀ o ∈ operations, o.setsRegisters = false) :
    let s := (ofDrives drives).after operations
    s.awaitingInput = true →
      s.computer.AtRead ∧
      (∀ bytes budget,
        let typed := s.type bytes
        let resumed := typed.run none budget
        (typed.computer.Starved ∨ budget = 0 →
          s.Ahead bytes resumed.1 ∧ resumed.2.cycles = 0 ∧ resumed.2.instructions = 0 ∧
            (resumed.1.awaitingInput = true ↔ 0 < budget)) ∧
        (¬typed.computer.Starved → 0 < budget →
          let read := typed.step.1
          let rest := read.run none (budget - Computer.callCost)
          read = { typed with
            computer := typed.computer.serve
            cycles := typed.cycles + Computer.callCost
            instructions := typed.instructions + 1
            awaitingInput := false } ∧
          rest.1.SameState resumed.1 ∧
            resumed.2.cycles = Computer.callCost + rest.2.cycles ∧
            resumed.2.instructions = 1 + rest.2.instructions)) ∧
      (s.mode = .commandLine → ∀ line budget,
        let typed := s.type (Utf8.encode line ++ [carriageReturn])
        s.enterLine line budget =
            ((typed.run none budget).1, some (typed.run none budget).2) ∧
          ¬typed.computer.Starved) := by
  intro s hawaiting
  have hread : s.computer.AtRead := (parked_ofDrives drives).after h hawaiting
  refine ⟨hread, fun bytes budget => ⟨?_, ?_⟩, fun hmode line budget => ?_⟩
  · exact resume_type_of_idle hread
  · exact resume_type_of_fed hread
  · intro typed
    have htyped : typed = s.typeLine line := (typeLine_eq s line).symm
    rw [htyped]
    exact ⟨enterLine_of_awaiting hmode hawaiting line budget, not_starved_typeLine s line⟩

/-- A program that reads a byte, shows it and halts is started, and a program is listed in BASIC
while it waits. -/
def listedMeanwhile : List Operation :=
  [.load 0x0100 [0x0E, 0x01, 0xCD, 0x05, 0x00, 0x76], .run (some 0x0100) 100,
    .command "BASIC".toList 10, .enterLine "LIST".toList 10, .enterLine "QUIT".toList 10]

theorem awaits_at_read_listedMeanwhile :
    let s := (ofDrives [.memory .empty]).after listedMeanwhile
    s.awaitingInput = true ∧ s.computer.cpu.c = 1 ∧
      s.computer.AtRead ∧ ¬(s.type [0x41, carriageReturn]).computer.Starved ∧
      (s.enterLine ['A'] 10).1 = ((s.type [0x41, carriageReturn]).run none 10).1 := by
  intro s
  have hawaiting : s.awaitingInput = true := by decide +kernel
  have hmode : s.isAtCommandLine = true := by decide +kernel
  have hkept : ∀ o ∈ listedMeanwhile, o.setsRegisters = false := by decide
  obtain ⟨hread, -, hentered⟩ := awaits_at_read [.memory .empty] hkept hawaiting
  obtain ⟨hresumed, hfed⟩ := hentered (isAtCommandLine_iff.mp hmode) ['A'] 10
  exact ⟨hawaiting, by decide +kernel, hread, hfed, congrArg Prod.fst hresumed⟩

end Cpm80.Session
