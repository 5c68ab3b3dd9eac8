import Cpm80.Session
import Cpm80.Proofs.InputAhead

/-!
# Runs of a session

A run of a session is a run of its computer, with the cycles and instructions added to the
totals, and the prompt given back in the end if a program that owes it has halted. The prompt
has nothing to do with what is typed, and it is given back once: a session whose processor is
halted stays as it is from the first run on.
-/
namespace Cpm80.Session

/-- `t` is `s` after `bytes` have been typed. The usage counts and whether the latest run
stopped for input are left out of account. -/
structure Ahead (bytes : List UInt8) (s t : Session) : Prop where
  computer : s.computer.Ahead bytes t.computer
  cycles : t.cycles = s.cycles
  instructions : t.instructions = s.instructions
  owesPrompt : t.owesPrompt = s.owesPrompt
  mode : t.mode = s.mode

/-- The sessions cannot be told apart by their state: only the usage counts may differ, and
whether the latest run stopped for input. -/
structure SameState (s t : Session) : Prop where
  cpu : t.computer.cpu = s.computer.cpu
  memory : t.computer.station.memory = s.computer.station.memory
  disk : t.computer.station.disk = s.computer.station.disk
  console : t.computer.station.console = s.computer.station.console
  cycles : t.cycles = s.cycles
  instructions : t.instructions = s.instructions
  owesPrompt : t.owesPrompt = s.owesPrompt
  mode : t.mode = s.mode

theorem Ahead.sameState {s t : Session} (h : s.Ahead [] t) : s.SameState t where
  cpu := h.computer.cpu
  memory := h.computer.station.memory
  disk := h.computer.station.disk
  console := h.computer.station.console.trans (Console.type_nil _)
  cycles := h.cycles
  instructions := h.instructions
  owesPrompt := h.owesPrompt
  mode := h.mode

/-! ## The parts of a run -/

/-- The session after a run of its computer, before the prompt is given back. -/
def ranFor (budget : Nat) (s : Session) : Session where
  computer := ⟨(s.computer.stop budget).cpu, (s.computer.stop budget).station.onUsage fun u =>
    u.addRun (s.computer.used budget).instructions (s.computer.used budget).cycles⟩
  cycles := s.cycles + (s.computer.used budget).cycles
  instructions := s.instructions + (s.computer.used budget).instructions
  awaitingInput := s.computer.parks budget
  owesPrompt := s.owesPrompt
  mode := s.mode

theorem resume_fst (budget : Nat) (s : Session) :
    (s.resume budget).1 =
      settlePrompt (s.ranFor budget).computer.cpu.halted (s.ranFor budget) := by
  obtain ⟨c, n, i, a, o, m⟩ := s
  simp only [resume, ranFor, Computer.run_eq, Machine.Tally.empty_add]

theorem resume_snd (budget : Nat) (s : Session) :
    (s.resume budget).2.cycles = (s.computer.used budget).cycles ∧
      (s.resume budget).2.instructions = (s.computer.used budget).instructions := by
  obtain ⟨c, n, i, a, o, m⟩ := s
  simp only [resume, Computer.run_eq, Machine.Tally.empty_add, and_self]

/-! ## The prompt -/

theorem settlePrompt_false (s : Session) : settlePrompt false s = s := by
  simp [settlePrompt]

theorem settlePrompt_of_owes_eq_false {s : Session} (h : s.owesPrompt = false) (halted : Bool) :
    settlePrompt halted s = s := by
  simp [settlePrompt, h]

theorem settlePrompt_true {s : Session} (h : s.owesPrompt = true) :
    settlePrompt true s =
      printPrompt ({ s with owesPrompt := false }.onConsole Console.endLine) := by
  simp [settlePrompt, h]

/-- The prompt is given back by a halted session only, and is not owed any more then. -/
theorem owesPrompt_settlePrompt (s : Session) : (settlePrompt true s).owesPrompt = false := by
  cases h : s.owesPrompt with
  | false => rw [settlePrompt_of_owes_eq_false h, h]
  | true =>
    rw [settlePrompt_true h]
    simp only [printPrompt, onConsole, onStation]
    split <;> rfl

theorem cpu_settlePrompt (halted : Bool) (s : Session) :
    (settlePrompt halted s).computer.cpu = s.computer.cpu := by
  unfold settlePrompt
  split
  · simp only [printPrompt, onConsole, onStation]
    split <;> rfl
  · rfl

theorem awaitingInput_settlePrompt (halted : Bool) (s : Session) :
    (settlePrompt halted s).awaitingInput = s.awaitingInput := by
  unfold settlePrompt
  split
  · simp only [printPrompt, onConsole, onStation]
    split <;> rfl
  · rfl

namespace Ahead

variable {bytes more : List UInt8} {s t u : Session} {budget : Nat}

theorem refl (s : Session) : s.Ahead [] s :=
  ⟨Computer.Ahead.refl _, rfl, rfl, rfl, rfl⟩

theorem exists_eq (h : s.Ahead bytes t) : ∃ u w, t =
    ⟨⟨s.computer.cpu, s.computer.station.memory, s.computer.station.disk,
      s.computer.station.console.type bytes, u⟩, s.cycles, s.instructions, w, s.owesPrompt,
      s.mode⟩ := by
  obtain ⟨⟨q, st⟩, n, i, w, o, m⟩ := t
  obtain ⟨⟨hcpu, hstation⟩, hn, hi, ho, hm⟩ := h
  obtain ⟨u, hu⟩ := hstation.exists_usage
  exact ⟨u, w, by congr⟩

theorem trans (h : s.Ahead bytes t) (h' : t.Ahead more u) : s.Ahead (bytes ++ more) u := by
  obtain ⟨v, w, rfl⟩ := h.exists_eq
  obtain ⟨v', w', rfl⟩ := h'.exists_eq
  exact ⟨⟨rfl, rfl, rfl, (Console.type_append _ bytes more).symm⟩, rfl, rfl, rfl, rfl⟩

theorem symm (h : s.Ahead [] t) : t.Ahead [] s := by
  obtain ⟨v, w, rfl⟩ := h.exists_eq
  exact ⟨⟨rfl, rfl, rfl, by simp⟩, rfl, rfl, rfl, rfl⟩

theorem settlePrompt (h : s.Ahead bytes t) (halted : Bool) :
    (s.settlePrompt halted).Ahead bytes (t.settlePrompt halted) := by
  obtain ⟨v, w, rfl⟩ := h.exists_eq
  obtain ⟨⟨p, mem, d, con, u⟩, n, i, _, o, m⟩ := s
  simp only [Session.settlePrompt, printPrompt, onConsole, onStation, Station.onConsole]
  split
  · split <;> exact ⟨⟨rfl, rfl, rfl, rfl⟩, rfl, rfl, rfl, rfl⟩
  · exact ⟨⟨rfl, rfl, rfl, rfl⟩, rfl, rfl, rfl, rfl⟩

/-- What has been typed ahead waits until the run is over, if the run executes no `IN`. -/
theorem ranFor (h : s.Ahead bytes t) (hquiet : s.computer.QuietFor budget) :
    (s.ranFor budget).Ahead bytes (t.ranFor (s.computer.used budget).cycles) := by
  obtain ⟨hstop, hused, hparks⟩ := h.computer.run hquiet
  obtain ⟨hcpu, hmemory, hdisk, hconsole⟩ := hstop
  refine ⟨⟨hcpu, hmemory, hdisk, hconsole⟩, ?_, ?_, h.owesPrompt, h.mode⟩
  · simp only [Session.ranFor, hused, h.cycles]
  · simp only [Session.ranFor, hused, h.instructions]

theorem ranFor_nil (h : s.Ahead [] t) (budget : Nat) :
    (s.ranFor budget).Ahead [] (t.ranFor budget) ∧
      (t.ranFor budget).awaitingInput = (s.ranFor budget).awaitingInput := by
  obtain ⟨hstop, hused, hparks⟩ := h.computer.run_nil budget
  obtain ⟨hcpu, hmemory, hdisk, hconsole⟩ := hstop
  refine ⟨⟨⟨hcpu, hmemory, hdisk, hconsole⟩, ?_, ?_, h.owesPrompt, h.mode⟩, hparks⟩
  · simp only [Session.ranFor, hused, h.cycles]
  · simp only [Session.ranFor, hused, h.instructions]

end Ahead

/-! ## A run after a run -/

theorem ranFor_add (budget more : Nat) (s : Session) :
    ((s.ranFor budget).ranFor more).Ahead []
        (s.ranFor ((s.computer.used budget).cycles + more)) ∧
      ((s.ranFor budget).ranFor more).awaitingInput =
        (s.ranFor ((s.computer.used budget).cycles + more)).awaitingInput := by
  obtain ⟨hstop, hused, hparks⟩ := Computer.run_add budget more s.computer
  have hcounted : (s.ranFor budget).computer.Ahead [] (s.computer.stop budget) :=
    ⟨rfl, rfl, rfl, (Console.type_nil _).symm⟩
  obtain ⟨hahead, hmore, hwaiting⟩ := hcounted.run_nil more
  rw [← hstop] at hahead
  rw [hmore] at hused
  rw [hwaiting] at hparks
  obtain ⟨hcpu, hmemory, hdisk, hconsole⟩ := hahead
  refine ⟨⟨⟨hcpu, hmemory, hdisk, hconsole⟩, ?_, ?_, rfl, rfl⟩, hparks.symm⟩
  · simp only [ranFor] at hused ⊢
    rw [hused, Machine.Tally.cycles_add, Nat.add_assoc]
  · simp only [ranFor] at hused ⊢
    rw [hused, Machine.Tally.instructions_add, Nat.add_assoc]

theorem ranFor_of_halted {s : Session} (h : s.computer.cpu.halted = true) (budget : Nat) :
    s.Ahead [] (s.ranFor budget) ∧ (s.ranFor budget).awaitingInput = false ∧
      s.computer.used budget = {} := by
  have hc := Computer.advance_of_halted h
  rw [ranFor, Computer.stop_halted hc, Computer.used_halted hc, Computer.parks_halted hc]
  exact ⟨⟨⟨rfl, rfl, rfl, (Console.type_nil _).symm⟩, rfl, rfl, rfl, rfl⟩, rfl, rfl⟩

/-- A halted session to which the prompt has been given back goes on to nothing. -/
theorem resume_of_halted {s : Session} (h : s.computer.cpu.halted = true)
    (ho : s.owesPrompt = false) (budget : Nat) :
    s.Ahead [] (s.resume budget).1 ∧ (s.resume budget).1.awaitingInput = false := by
  obtain ⟨hran, hawaiting, _⟩ := ranFor_of_halted h budget
  have howes : (s.ranFor budget).owesPrompt = false := ho
  rw [resume_fst, settlePrompt_of_owes_eq_false howes]
  exact ⟨hran, hawaiting⟩

/-- Two runs of a session are one, for the cycles of the first and the budget of the second. -/
theorem resume_resume (budget more : Nat) (s : Session) :
    ((s.resume budget).1.resume more).1.Ahead []
        (s.resume ((s.computer.used budget).cycles + more)).1 ∧
      ((s.resume budget).1.resume more).1.awaitingInput =
        (s.resume ((s.computer.used budget).cycles + more)).1.awaitingInput := by
  obtain ⟨hadd, hawaiting⟩ := ranFor_add budget more s
  cases hh : (s.ranFor budget).computer.cpu.halted with
  | false =>
    rw [resume_fst budget, hh, settlePrompt_false, resume_fst, resume_fst,
      awaitingInput_settlePrompt, awaitingInput_settlePrompt, hadd.computer.cpu]
    exact ⟨hadd.settlePrompt _, hawaiting⟩
  | true =>
    obtain ⟨hran, hrest, _⟩ := ranFor_of_halted hh more
    have hall := hran.trans hadd
    rw [resume_fst budget, hh, resume_fst _ s, hall.computer.cpu, hh,
      awaitingInput_settlePrompt, ← hawaiting, hrest]
    obtain ⟨hstay, hstays⟩ := resume_of_halted (s := settlePrompt true (s.ranFor budget))
      (by rw [cpu_settlePrompt, hh]) (owesPrompt_settlePrompt _) more
    exact ⟨hstay.symm.trans (hall.settlePrompt true), hstays⟩

theorem used_resume (budget more : Nat) (s : Session) :
    s.computer.used ((s.computer.used budget).cycles + more) =
      (s.computer.used budget).add ((s.resume budget).1.computer.used more) := by
  rw [(Computer.run_add budget more s.computer).2.1]
  congr 1
  cases hh : (s.ranFor budget).computer.cpu.halted with
  | false =>
    have hcounted : (s.computer.stop budget).Ahead [] (s.ranFor budget).computer :=
      ⟨rfl, rfl, rfl, (Console.type_nil _).symm⟩
    rw [resume_fst, hh, settlePrompt_false, (hcounted.run_nil more).2.1]
  | true =>
    have hresumed : (s.resume budget).1.computer.cpu.halted = true := by
      rw [resume_fst, cpu_settlePrompt, hh]
    have hstopped : (s.computer.stop budget).cpu.halted = true := hh
    rw [Computer.used_halted (Computer.advance_of_halted hstopped),
      Computer.used_halted (Computer.advance_of_halted hresumed)]

end Cpm80.Session
