import Cpm80.Proofs.ControlFlow
import Cpm80.Proofs.KeyboardReads
import Cpm80.Proofs.Reachable

/-!
# Runs are bounded and accounted for

An action costs from four to eighteen cycles, so a run for a budget takes at most a quarter as many
rounds, and exceeds the budget by less than one action. What it reports is what the totals of the
session grow by. It stops for one of three reasons, which can be read off the session afterwards:
the processor is halted, it stands at a read that cannot be satisfied before the budget is used
up, or the budget is used up.
-/
namespace Cpm80

theorem Instruction.cycles_le_eighteen (i : Instruction) : i.cycles ≤ 18 := by
  cases i <;> grind [cycles, byRegister]

namespace Computer

variable {c d : Computer} {budget cost : Nat}

/-! ## The cost of an action -/

theorem cost_bounds (h : c.advance = (d, .executed cost)) : 4 ≤ cost ∧ cost ≤ 18 := by
  cases advances_of_eq h with
  | serves => exact ⟨by decide, by decide⟩
  | executes hrunning =>
    obtain ⟨p, m, disk, con, u⟩ := c
    have hcost : (executeInstruction ⟨p, m, disk, con, u⟩).2 =
        (⟨p, m, con⟩ : Machine Console).next.cycles :=
      congrArg Prod.snd (Machine.step_running consoleBus hrunning)
    rw [hcost]
    exact ⟨Instruction.four_le_cycles _, Instruction.cycles_le_eighteen _⟩

theorem used_bounds (budget : Nat) (c : Computer) :
    4 * (c.used budget).instructions ≤ (c.used budget).cycles ∧
      (c.used budget).cycles ≤ 18 * (c.used budget).instructions := by
  induction budget, c using run_induction with
  | zero c => simp
  | executed hb hc ih =>
    obtain ⟨hlow, hhigh⟩ := cost_bounds hc
    rw [used_executed hb hc, Machine.Tally.cycles_add, Machine.Tally.instructions_add]
    dsimp only
    omega
  | halted hc => simp [used_halted hc]
  | waiting hb hc => simp [used_waiting hc]

/-- The last action may exceed the budget, but nothing is begun when it is used up. -/
theorem cycles_used_lt (budget : Nat) (c : Computer) : (c.used budget).cycles < budget + 18 := by
  induction budget, c using run_induction with
  | zero c => simp
  | @executed budget cost c d hb hc ih =>
    obtain ⟨-, hhigh⟩ := cost_bounds hc
    rw [used_executed hb hc, Machine.Tally.cycles_add]
    dsimp only
    by_cases hlast : budget ≤ cost
    case pos =>
      have hnothing : budget - cost = 0 := by omega
      rw [hnothing, used_zero]
      dsimp only
      omega
    case neg => omega
  | halted hc => simp [used_halted hc]
  | waiting hb hc => simp [used_waiting hc]

/-! ## Rounds -/

/-- A run round by round: while the cycles of the tally are below a limit, one more action is
tried. There is no result if the rounds do not suffice. -/
def loop (limit : Nat) : (rounds : Nat) → Computer → Machine.Tally →
    Option (Computer × Machine.Tally × Bool)
  | 0, c, t => if t.cycles < limit then none else some (c, t, false)
  | rounds + 1, c, t =>
    if t.cycles < limit then
      match c.advance with
      | (c, .executed cost) => loop limit rounds c (t.add ⟨1, cost⟩)
      | (c, .halted) => some (c, t, false)
      | (c, .waiting) => some (c, t, true)
    else some (c, t, false)

/-- A quarter as many rounds as there are cycles left lead to the end of the run. -/
theorem loop_eq_run {limit rounds : Nat} {t : Machine.Tally} (h : limit ≤ t.cycles + 4 * rounds) :
    c.loop limit rounds t = some (c.run (limit - t.cycles) t) := by
  induction rounds generalizing c t with
  | zero =>
    have hdone : ¬t.cycles < limit := by omega
    have hnothing : limit - t.cycles = 0 := by omega
    rw [loop, if_neg hdone, hnothing, run_zero]
  | succ rounds ih =>
    by_cases hgoes : t.cycles < limit
    case neg =>
      have hnothing : limit - t.cycles = 0 := by omega
      rw [loop, if_neg hgoes, hnothing, run_zero]
    case pos =>
      have hne : limit - t.cycles ≠ 0 := by omega
      rw [loop, if_pos hgoes]
      match hc : c.advance with
      | (d, .executed cost) =>
        obtain ⟨hlow, -⟩ := cost_bounds hc
        have hrest : limit ≤ (t.add ⟨1, cost⟩).cycles + 4 * rounds := by
          rw [Machine.Tally.cycles_add]
          dsimp only
          omega
        have hleft : limit - (t.add ⟨1, cost⟩).cycles = limit - t.cycles - cost := by
          rw [Machine.Tally.cycles_add]
          dsimp only
          omega
        rw [run_executed hne hc, ← hleft]
        exact ih hrest
      | (d, .halted) =>
        obtain rfl := eq_of_advance_halted hc
        rw [run_halted hc]
      | (d, .waiting) =>
        obtain rfl := eq_of_advance_waiting hc
        rw [run_waiting hne hc]

/-! ## Why a run stops -/

/-- A run parks exactly if it comes to a read that cannot be satisfied with cycles left. -/
theorem parks_iff : c.parks budget = true ↔
    (c.stop budget).Starved ∧ (c.used budget).cycles < budget := by
  induction budget, c using run_induction with
  | zero c => simp
  | @executed budget cost c d hb hc ih =>
    have hlow := (cost_bounds hc).1
    rw [parks_executed hb hc, stop_executed hb hc, used_executed hb hc, ih,
      Machine.Tally.cycles_add]
    dsimp only
    have hleft : (d.used (budget - cost)).cycles < budget - cost ↔
        cost + (d.used (budget - cost)).cycles < budget := by omega
    rw [hleft]
  | halted hc =>
    rw [parks_halted hc, stop_halted hc]
    constructor
    · intro h
      cases h
    · rintro ⟨hstarved, -⟩
      exact absurd (halted_of_advance_halted hc) (by simp [hstarved.running])
  | @waiting budget c hb hc =>
    rw [parks_waiting hb hc, stop_waiting hc, used_waiting hc]
    exact ⟨fun _ => ⟨advance_eq_waiting_iff.mp hc, Nat.pos_of_ne_zero hb⟩, fun _ => rfl⟩

/-- A run that neither halts nor parks has used up its budget. -/
theorem le_cycles_used (hrunning : (c.stop budget).cpu.halted = false)
    (hparks : c.parks budget = false) : budget ≤ (c.used budget).cycles := by
  induction budget, c using run_induction with
  | zero c => simp
  | executed hb hc ih =>
    rw [stop_executed hb hc] at hrunning
    rw [parks_executed hb hc] at hparks
    have hrest := ih hrunning hparks
    rw [used_executed hb hc, Machine.Tally.cycles_add]
    dsimp only
    omega
  | halted hc =>
    rw [stop_halted hc] at hrunning
    exact absurd (halted_of_advance_halted hc) (by simp [hrunning])
  | waiting hb hc =>
    rw [parks_waiting hb hc] at hparks
    cases hparks

end Computer

namespace Session

variable {s : Session} {budget : Nat}

/-- The session that a run starts from: with an address, it begins a program there. -/
def begun (s : Session) : Option UInt16 → Session
  | some entry => s.start entry
  | none => s

theorem run_eq_resume (s : Session) (entry : Option UInt16) (budget : Nat) :
    s.run entry budget = (s.begun entry).resume budget := by
  cases entry <;> rfl

theorem cycles_begun (s : Session) (entry : Option UInt16) :
    (s.begun entry).cycles = s.cycles ∧ (s.begun entry).instructions = s.instructions := by
  cases entry <;> exact ⟨rfl, rfl⟩

/-- The prompt touches nothing but the screen. -/
theorem settlePrompt_keeps (halted : Bool) (s : Session) :
    (settlePrompt halted s).computer.station.memory = s.computer.station.memory ∧
      (settlePrompt halted s).computer.station.disk = s.computer.station.disk ∧
      (settlePrompt halted s).cycles = s.cycles ∧
      (settlePrompt halted s).instructions = s.instructions := by
  unfold settlePrompt
  split
  · simp only [printPrompt, onConsole, onStation, Station.onConsole]
    split <;> exact ⟨rfl, rfl, rfl, rfl⟩
  · exact ⟨rfl, rfl, rfl, rfl⟩

theorem halted_resume (budget : Nat) (s : Session) :
    (s.resume budget).1.computer.cpu.halted = (s.computer.stop budget).cpu.halted := by
  rw [resume_fst, cpu_settlePrompt]
  rfl

/-- The outcome in the report is read off where the computer stopped. -/
theorem resume_report (budget : Nat) (s : Session) :
    (s.resume budget).2.halted = (s.computer.stop budget).cpu.halted ∧
      (s.resume budget).2.outcome =
        if (s.computer.stop budget).cpu.halted then .halted
        else if s.computer.parks budget then .awaitingInput
        else .cycleLimit := by
  obtain ⟨c, n, i, a, o, m⟩ := s
  simp only [resume, Computer.run_eq, and_self]

/-- A session that is not halted by a run stands where its computer stopped. -/
theorem starved_resume_iff : (s.resume budget).1.computer.Starved ↔
    (s.computer.stop budget).Starved := by
  have hran : (s.ranFor budget).computer.Starved ↔ (s.computer.stop budget).Starved :=
    ⟨fun h => ⟨h.running, h.atEntry, h.lacks⟩, fun h => ⟨h.running, h.atEntry, h.lacks⟩⟩
  cases hh : (s.ranFor budget).computer.cpu.halted with
  | false => rw [resume_fst, hh, settlePrompt_false, hran]
  | true =>
    constructor
    · intro h
      have hrunning := h.running
      rw [resume_fst, cpu_settlePrompt, hh] at hrunning
      cases hrunning
    · intro h
      have hrunning := h.running
      rw [show (s.computer.stop budget).cpu.halted = true from hh] at hrunning
      cases hrunning

theorem outcome_eq_halted_iff : (s.resume budget).2.outcome = .halted ↔
    (s.resume budget).1.computer.cpu.halted = true := by
  rw [(resume_report budget s).2, halted_resume]
  split
  case isTrue h => simp [h]
  case isFalse h =>
    split <;> simp [h]

theorem outcome_eq_awaitingInput_iff : (s.resume budget).2.outcome = .awaitingInput ↔
    (s.resume budget).1.computer.Starved ∧ (s.resume budget).2.cycles < budget := by
  rw [(resume_report budget s).2, starved_resume_iff, (resume_snd budget s).1,
    ← Computer.parks_iff]
  split
  case isTrue h =>
    constructor
    · intro hcontra
      cases hcontra
    · intro hparks
      have hrunning := (Computer.parks_iff.mp hparks).1.running
      rw [h] at hrunning
      cases hrunning
  case isFalse h =>
    split
    case isTrue hparks => simp [hparks]
    case isFalse hparks => simp [hparks]

theorem le_cycles_of_cycleLimit (h : (s.resume budget).2.outcome = .cycleLimit) :
    budget ≤ (s.resume budget).2.cycles := by
  rw [(resume_report budget s).2] at h
  rw [(resume_snd budget s).1]
  split at h
  case isTrue => cases h
  case isFalse hrunning =>
    split at h
    case isTrue => cases h
    case isFalse hparks =>
      exact Computer.le_cycles_used (Bool.eq_false_iff.mpr hrunning) (Bool.eq_false_iff.mpr hparks)

/-- A run is over after at most a quarter as many rounds as it has cycles, rounded up; it exceeds
its budget by less than eighteen cycles, with four to eighteen for each instruction, and the totals
grow by what it reports. It reports a halt exactly if the processor is halted, the wait for
input exactly if the processor stands at a read that cannot be satisfied and the budget is not used
up, and the cycle limit only if it is. -/
theorem run_accounted (s : Session) (entry : Option UInt16) (budget : Nat) :
    let after := (s.run entry budget).1
    let report := (s.run entry budget).2
    (∃ c, (s.begun entry).computer.loop budget ((budget + 3) / 4) {} =
        some (c, ⟨report.instructions, report.cycles⟩, after.awaitingInput) ∧
      after.computer.cpu = c.cpu ∧ after.computer.station.memory = c.station.memory ∧
      after.computer.station.disk = c.station.disk) ∧
    (report.cycles < budget + 18 ∧ (budget = 0 → report.cycles = 0)) ∧
    (4 * report.instructions ≤ report.cycles ∧ report.cycles ≤ 18 * report.instructions) ∧
    (after.cycles = s.cycles + report.cycles ∧
      after.instructions = s.instructions + report.instructions) ∧
    report.halted = after.computer.cpu.halted ∧
    (report.outcome = .halted ↔ after.computer.cpu.halted = true) ∧
    (report.outcome = .awaitingInput ↔ after.computer.Starved ∧ report.cycles < budget) ∧
    (report.outcome = .cycleLimit → budget ≤ report.cycles) := by
  obtain ⟨hn, hi⟩ := cycles_begun s entry
  rw [run_eq_resume]
  generalize s.begun entry = b at hn hi ⊢
  intro after report
  obtain ⟨hcycles, hinstructions⟩ := resume_snd budget b
  have hafter : after = settlePrompt _ (b.ranFor budget) := resume_fst budget b
  obtain ⟨hmemory, hdisk, htotal, htotalInstructions⟩ :=
    settlePrompt_keeps (b.ranFor budget).computer.cpu.halted (b.ranFor budget)
  refine ⟨⟨b.computer.stop budget, ?_, ?_, ?_, ?_⟩, ⟨?_, ?_⟩, ?_, ⟨?_, ?_⟩, ?_,
    outcome_eq_halted_iff, outcome_eq_awaitingInput_iff, le_cycles_of_cycleLimit⟩
  · have hrounds : budget ≤ ({} : Machine.Tally).cycles + 4 * ((budget + 3) / 4) := by
      dsimp only
      omega
    rw [Computer.loop_eq_run hrounds, Computer.run_eq, hafter, awaitingInput_settlePrompt]
    simp only [report, hcycles, hinstructions, Machine.Tally.empty_add, Nat.sub_zero]
    rfl
  · rw [hafter, cpu_settlePrompt]
    rfl
  · rw [hafter, hmemory]
    rfl
  · rw [hafter, hdisk]
    rfl
  · exact hcycles ▸ Computer.cycles_used_lt budget b.computer
  · rintro rfl
    simp only [report, hcycles, Computer.used_zero]
  · simp only [report, hcycles, hinstructions]
    exact Computer.used_bounds budget b.computer
  · rw [hafter, htotal, ← hn]
    simp only [report, hcycles, ranFor]
  · rw [hafter, htotalInstructions, ← hi]
    simp only [report, hinstructions, ranFor]
  · rw [(halted_resume budget b), (resume_report budget b).1]

/-- A session whose program reads a byte. -/
def readingByte : Session :=
  (ofDrives []).perform (.setRegisters { Processor.initial with pc := Computer.entryPoint, c := 1 })

/-- One run for each of the ways in which a run stops; the blank memory is full of instructions
that do nothing for four cycles. -/
theorem run_accounted_threeWays :
    ((haltStarted.run none 3).2.cycles = 7 ∧ (haltStarted.run none 3).2.outcome = .halted) ∧
      (((ofDrives []).run (some 0x0200) 6).2.cycles = 8 ∧
        8 < 6 + 18 ∧ ((ofDrives []).run (some 0x0200) 6).1.cycles = 0 + 8) ∧
      (readingByte.run none 6).1.computer.Starved := by
  have hhalted : (haltStarted.run none 3).1.computer.cpu.halted = true := by decide +kernel
  have hcycles : ((ofDrives []).run (some 0x0200) 6).2.cycles = 8 := by decide +kernel
  have hwaits : (readingByte.run none 6).2.outcome = .awaitingInput := by decide +kernel
  obtain ⟨-, -, -, -, -, hreported, -, -⟩ := run_accounted haltStarted none 3
  obtain ⟨-, ⟨hless, -⟩, -, ⟨htotal, -⟩, -⟩ := run_accounted (ofDrives []) (some 0x0200) 6
  obtain ⟨-, -, -, -, -, -, hstarves, -⟩ := run_accounted readingByte none 6
  rw [hcycles] at hless htotal
  exact ⟨⟨by decide +kernel, hreported.mpr hhalted⟩, ⟨hcycles, hless, htotal⟩,
    (hstarves.mp hwaits).1⟩

end Session

end Cpm80
