import Cpm80.Proofs.Reachable

/-!
# Runs in pieces

A run may be cut anywhere, and single steps do what a run does. The one thing that a run adds
to its steps is the prompt, when a program started from the command line has halted.
-/
namespace Cpm80.Session

theorem step_of_executed {s : Session} {d : Computer} {cost : Nat}
    (h : s.computer.advance = (d, .executed cost)) :
    s.step = (⟨d, s.cycles + cost, s.instructions + 1, false, s.owesPrompt, s.mode⟩, cost) := by
  simp only [step, h]

theorem step_of_halted {s : Session} (h : s.computer.advance = (s.computer, .halted)) :
    s.step = (s, 0) := by
  simp only [step, h]

theorem step_of_waiting {s : Session} (h : s.computer.advance = (s.computer, .waiting)) :
    s.step = ({ s with awaitingInput := true }, 0) := by
  simp only [step, h]

/-- A run begins with a step. -/
theorem ranFor_step {s : Session} {d : Computer} {budget cost : Nat} (hne : budget ≠ 0)
    (h : s.computer.advance = (d, .executed cost)) :
    (s.step.1.ranFor (budget - cost)).Ahead [] (s.ranFor budget) ∧
      (s.ranFor budget).awaitingInput = (s.step.1.ranFor (budget - cost)).awaitingInput := by
  rw [step_of_executed h, ranFor, ranFor, Computer.stop_executed hne h,
    Computer.used_executed hne h, Computer.parks_executed hne h]
  refine ⟨⟨⟨rfl, rfl, rfl, (Console.type_nil _).symm⟩, ?_, ?_, rfl, rfl⟩, rfl⟩
  · exact (Nat.add_assoc _ _ _).symm
  · exact (Nat.add_assoc _ _ _).symm

theorem ranFor_zero (s : Session) :
    s.Ahead [] (s.ranFor 0) ∧ (s.ranFor 0).awaitingInput = false := by
  rw [ranFor, Computer.stop_zero, Computer.used_zero, Computer.parks_zero]
  exact ⟨⟨⟨rfl, rfl, rfl, (Console.type_nil _).symm⟩, rfl, rfl, rfl, rfl⟩, rfl⟩

/-- Steps, after some that took `total` cycles, until one does nothing or the cycles amount to
the budget. -/
def stepUntil (budget total : Nat) (s : Session) : Session :=
  if _h : s.step.2 = 0 ∨ budget ≤ total + s.step.2 then s.step.1
  else stepUntil budget (total + s.step.2) s.step.1
termination_by budget - total

/-- Steps up to a budget do what a run for the rest of the budget does, but for the prompt. -/
theorem stepUntil_ahead {budget total : Nat} {s : Session} (htotal : total < budget)
    (hs : s.Wakeful) :
    (s.stepUntil budget total).Ahead [] (s.ranFor (budget - total)) ∧
      (s.ranFor (budget - total)).awaitingInput = (s.stepUntil budget total).awaitingInput := by
  induction hrest : budget - total using Nat.strongRecOn generalizing total s with
  | _ rest ih =>
    have hne : rest ≠ 0 := by omega
    rw [stepUntil]
    match hc : s.computer.advance with
    | (d, .executed cost) =>
      have hpos := Computer.cost_pos hc
      have hstep := step_of_executed hc
      obtain ⟨hran, hawaiting⟩ := ranFor_step hne hc
      by_cases hlast : budget ≤ total + cost
      · have hover : rest - cost = 0 := by omega
        obtain ⟨hzero, hzeroAwaiting⟩ := ranFor_zero s.step.1
        rw [dif_pos (.inr (by rw [hstep]; exact hlast))]
        rw [hover] at hran hawaiting
        refine ⟨hzero.trans hran, ?_⟩
        rw [hawaiting, hzeroAwaiting, hstep]
      · have hgo : ¬(s.step.2 = 0 ∨ budget ≤ total + s.step.2) := by
          rw [hstep]
          dsimp only
          omega
        have hwakeful : s.step.1.Wakeful := wakeful_step hs
        have hcost : s.step.2 = cost := by rw [hstep]
        rw [dif_neg hgo, hcost]
        obtain ⟨hsteps, hstepsAwaiting⟩ :=
          @ih (rest - cost) (by omega) (total + cost) s.step.1 (by omega) hwakeful (by omega)
        exact ⟨hsteps.trans hran, hawaiting.trans hstepsAwaiting⟩
    | (d, .halted) =>
      obtain rfl := Computer.eq_of_advance_halted hc
      have hhalted := Computer.halted_of_advance_halted hc
      obtain ⟨hran, hawaiting, _⟩ := ranFor_of_halted hhalted rest
      rw [step_of_halted hc, dif_pos (.inl rfl)]
      exact ⟨hran, hawaiting.trans (hs hhalted).symm⟩
    | (d, .waiting) =>
      obtain rfl := Computer.eq_of_advance_waiting hc
      rw [step_of_waiting hc, dif_pos (.inl rfl), ranFor, Computer.stop_waiting hc,
        Computer.used_waiting hc, Computer.parks_waiting hne hc]
      exact ⟨⟨⟨rfl, rfl, rfl, (Console.type_nil _).symm⟩, rfl, rfl, rfl, rfl⟩, rfl⟩

/-! ## The prompt in the end -/

/-- What a run writes of its own if the session is then in the given state: the prompt on a
new line, for a halted program that owes it. -/
def owedPrompt (s : Session) : List UInt8 :=
  if s.computer.cpu.halted ∧ s.owesPrompt then
    [carriageReturn, lineFeed] ++
      match CommandLine.prompt? s.computer.station.disk with
      | some prompt => Utf8.encode prompt.toList
      | none => []
  else []

/-- The session with the prompt given back, as far as the computer and the counts go. -/
structure ShowsPrompt (s t : Session) : Prop where
  cpu : t.computer.cpu = s.computer.cpu
  memory : t.computer.station.memory = s.computer.station.memory
  disk : t.computer.station.disk = s.computer.station.disk
  input : t.computer.station.console.input = s.computer.station.console.input
  output : t.computer.station.console.output.toList =
    s.computer.station.console.output.toList ++ s.owedPrompt
  awaitingInput : t.awaitingInput = s.awaitingInput
  cycles : t.cycles = s.cycles
  instructions : t.instructions = s.instructions

theorem showsPrompt_settlePrompt (s : Session) :
    s.ShowsPrompt (settlePrompt s.computer.cpu.halted s) := by
  obtain ⟨⟨p, mem, d, con, u⟩, n, i, w, o, m⟩ := s
  by_cases hprompt : p.halted ∧ o
  · simp only [settlePrompt, if_pos hprompt, printPrompt, onConsole, onStation,
      Station.onConsole]
    split
    · next prompt hsome =>
      refine ⟨rfl, rfl, rfl, rfl, ?_, rfl, rfl, rfl⟩
      simp [owedPrompt, hprompt, hsome, Station.print, Station.onConsole, Console.print,
        Console.endLine, Console.putBytes]
    · next hnone =>
      refine ⟨rfl, rfl, rfl, rfl, ?_, rfl, rfl, rfl⟩
      simp [owedPrompt, hprompt, hnone, Console.endLine, Console.putBytes]
  · simp only [settlePrompt, if_neg hprompt]
    exact ⟨rfl, rfl, rfl, rfl, by simp [owedPrompt, hprompt], rfl, rfl, rfl⟩

theorem ShowsPrompt.of_ahead {s t u : Session} (h : t.ShowsPrompt u) (hahead : s.Ahead [] t)
    (hawaiting : t.awaitingInput = s.awaitingInput) : s.ShowsPrompt u := by
  have hsame := hahead.sameState
  have howed : t.owedPrompt = s.owedPrompt := by
    unfold owedPrompt
    rw [hsame.cpu, hsame.owesPrompt, hsame.disk]
  exact {
    cpu := h.cpu.trans hsame.cpu
    memory := h.memory.trans hsame.memory
    disk := h.disk.trans hsame.disk
    input := h.input.trans (congrArg Console.input hsame.console)
    output := by rw [h.output, howed, hsame.console]
    awaitingInput := h.awaitingInput.trans hawaiting
    cycles := h.cycles.trans hsame.cycles
    instructions := h.instructions.trans hsame.instructions }

/-- A run in two parts does what the run for the cycles of the first part and the budget of
the second does, and a run does what steps do until nothing is done or the budget is used up,
and gives the prompt back. -/
theorem run_eq_parts {s : Session} (h : s.Reachable) :
    (∀ budget more,
      let first := s.run none budget
      let second := first.1.run none more
      let whole := s.run none (first.2.cycles + more)
      second.1.SameState whole.1 ∧ whole.1.awaitingInput = second.1.awaitingInput ∧
        whole.2.cycles = first.2.cycles + second.2.cycles ∧
        whole.2.instructions = first.2.instructions + second.2.instructions) ∧
    ∀ budget, 0 < budget → (s.stepUntil budget 0).ShowsPrompt (s.run none budget).1 := by
  constructor
  · intro budget more
    dsimp only [run]
    obtain ⟨hcycles, hinstructions⟩ := resume_snd budget s
    obtain ⟨hmore, hmoreInstructions⟩ := resume_snd more (s.resume budget).1
    rw [hcycles, hinstructions, hmore, hmoreInstructions]
    obtain ⟨hwhole, hwholeInstructions⟩ :=
      resume_snd ((s.computer.used budget).cycles + more) s
    rw [hwhole, hwholeInstructions, used_resume]
    obtain ⟨hsame, hawaiting⟩ := resume_resume budget more s
    exact ⟨hsame.sameState, hawaiting.symm, rfl, rfl⟩
  · intro budget hpos
    dsimp only [run]
    rw [resume_fst]
    obtain ⟨hsteps, hawaiting⟩ := stepUntil_ahead hpos h.wakeful
    exact (showsPrompt_settlePrompt (s.ranFor budget)).of_ahead hsteps hawaiting

theorem run_eq_parts_haltStarted :
    haltStarted.Reachable ∧ (haltStarted.run none 3).2.cycles = 7 ∧
      ((haltStarted.run none 3).1.run none 30).1.SameState (haltStarted.run none 37).1 ∧
      (haltStarted.stepUntil 60 0).owedPrompt = [0x0D, 0x0A, 0x41, 0x3E] ∧
      (haltStarted.stepUntil 60 0).ShowsPrompt (haltStarted.run none 60).1 := by
  have hs := reachable_haltStarted
  have hcycles : (haltStarted.run none 3).2.cycles = 7 := by decide +kernel
  have hcut := ((run_eq_parts hs).1 3 30).1
  rw [hcycles] at hcut
  exact ⟨hs, hcycles, hcut, by decide +kernel, (run_eq_parts hs).2 60 (by decide)⟩

end Cpm80.Session
