import Cpm80.Proofs.CuttingRuns

/-!
# When input is typed

A session is driven by turns: bytes are typed, or the program goes on for some cycles. If the
program never executes an `IN`, the state it halts in depends on all the typed bytes together
but not on the pieces they come in, nor on when they come. Every sequence of turns amounts to
typing everything first and then running once.
-/
namespace Cpm80.Session

inductive Turn
  | type (bytes : List UInt8)
  | run (budget : Nat)

namespace Turn

def isRun : Turn → Bool
  | type _ => false
  | run _ => true

/-- The bytes typed in a turn. -/
def bytes : Turn → List UInt8
  | type bytes => bytes
  | run _ => []

end Turn

def take (s : Session) : Turn → Session
  | .type bytes => s.type bytes
  | .run budget => (s.run none budget).1

/-- Takes one turn after another. -/
def play (s : Session) (turns : List Turn) : Session :=
  turns.foldl take s

/-- All that is typed in the turns. -/
def typed (turns : List Turn) : List UInt8 :=
  turns.flatMap Turn.bytes

def hasRun (turns : List Turn) : Bool :=
  turns.any Turn.isRun

/-- No `IN` is executed in the turns. -/
def Quiet (s : Session) : List Turn → Prop
  | [] => True
  | .type bytes :: rest => (s.type bytes).Quiet rest
  | .run budget :: rest => s.computer.QuietFor budget ∧ (s.run none budget).1.Quiet rest

instance Quiet.decidable : (turns : List Turn) → (s : Session) → Decidable (s.Quiet turns)
  | [], _ => .isTrue trivial
  | .type bytes :: rest, s => decidable rest (s.type bytes)
  | .run budget :: rest, s =>
    have := decidable rest (s.run none budget).1
    inferInstanceAs (Decidable (_ ∧ _))

variable {s t : Session}

theorem ahead_type (s : Session) (bytes : List UInt8) : s.Ahead bytes (s.type bytes) :=
  ⟨⟨rfl, rfl, rfl, rfl⟩, rfl, rfl, rfl, rfl⟩

theorem Ahead.of_type {bytes : List UInt8} (h : s.Ahead bytes t) : (s.type bytes).Ahead [] t := by
  obtain ⟨v, w, rfl⟩ := h.exists_eq
  exact ⟨⟨rfl, rfl, rfl, (Console.type_nil _).symm⟩, rfl, rfl, rfl, rfl⟩

theorem type_append (s : Session) (front back : List UInt8) :
    s.type (front ++ back) = (s.type front).type back := by
  obtain ⟨⟨p, mem, d, con, u⟩, n, i, w, o, m⟩ := s
  simp only [type, onConsole, onStation, Station.onConsole, Console.type_append]

/-- Typing after a run does the same as typing before it, if the run is then stopped after the
cycles that it took. -/
theorem type_resume {budget : Nat} (hquiet : s.computer.QuietFor budget)
    (bytes : List UInt8) :
    ((s.resume budget).1.type bytes).Ahead []
      ((s.type bytes).resume (s.computer.used budget).cycles).1 := by
  have hran := (ahead_type s bytes).ranFor hquiet
  apply Ahead.of_type
  rw [resume_fst, resume_fst, hran.computer.cpu]
  exact hran.settlePrompt _

theorem Ahead.resume (h : s.Ahead [] t) (budget : Nat) :
    (s.resume budget).1.Ahead [] (t.resume budget).1 := by
  have hran := (h.ranFor_nil budget).1
  rw [resume_fst, resume_fst, hran.computer.cpu]
  exact hran.settlePrompt _

theorem play_of_hasRun_eq_false {turns : List Turn} (h : hasRun turns = false) (s : Session) :
    s.play turns = s.type (typed turns) := by
  induction turns generalizing s with
  | nil =>
    obtain ⟨⟨p, mem, d, con, u⟩, n, i, w, o, m⟩ := s
    simp [play, typed, type, onConsole, onStation, Station.onConsole]
  | cons turn rest ih =>
    cases turn with
    | run budget => simp [hasRun, Turn.isRun] at h
    | type bytes =>
      have hrest : hasRun rest = false := by simpa [hasRun, Turn.isRun] using h
      have hfirst := ih hrest (s.type bytes)
      rw [← type_append] at hfirst
      exact hfirst

/-- Turns amount to typing everything and running once. -/
theorem play_of_hasRun {turns : List Turn} (h : hasRun turns = true) (hquiet : s.Quiet turns) :
    ∃ budget, ((s.type (typed turns)).resume budget).1.Ahead [] (s.play turns) := by
  induction turns generalizing s with
  | nil => simp [hasRun] at h
  | cons turn rest ih =>
    cases turn with
    | type bytes =>
      have hrest : hasRun rest = true := by simpa [hasRun, Turn.isRun] using h
      obtain ⟨budget, hplay⟩ := ih hrest hquiet
      rw [← type_append] at hplay
      exact ⟨budget, hplay⟩
    | run budget =>
      obtain ⟨hfirst, hquiet⟩ := hquiet
      have htyped := type_resume hfirst (typed rest)
      cases hrest : hasRun rest with
      | false =>
        refine ⟨(s.computer.used budget).cycles, ?_⟩
        have hplay := play_of_hasRun_eq_false hrest (s.resume budget).1
        have hturns : s.play (.run budget :: rest) = (s.resume budget).1.play rest := rfl
        rw [hturns, hplay]
        exact htyped.symm
      | true =>
        obtain ⟨more, hplay⟩ := ih hrest hquiet
        have hmore := resume_resume (s.computer.used budget).cycles more (s.type (typed rest))
        exact ⟨_, (hmore.1.symm.trans (htyped.resume more).symm).trans hplay⟩

theorem owesPrompt_resume {budget : Nat} (h : (s.resume budget).1.computer.cpu.halted = true) :
    (s.resume budget).1.owesPrompt = false := by
  rw [resume_fst, cpu_settlePrompt] at h
  rw [resume_fst, h]
  exact owesPrompt_settlePrompt _

/-- A run after which the processor is halted can as well be given more cycles. -/
theorem resume_ahead_of_halted {budget : Nat}
    (h : (s.resume budget).1.computer.cpu.halted = true) (more : Nat) :
    (s.resume budget).1.Ahead [] (s.resume ((s.computer.used budget).cycles + more)).1 :=
  (resume_of_halted h (owesPrompt_resume h) more).1.trans (resume_resume budget more s).1

theorem resume_ahead_resume {budget budget' : Nat}
    (h : (s.resume budget).1.computer.cpu.halted = true)
    (h' : (s.resume budget').1.computer.cpu.halted = true) :
    (s.resume budget).1.Ahead [] (s.resume budget').1 := by
  have hlong := resume_ahead_of_halted h (s.computer.used budget').cycles
  have hlong' := resume_ahead_of_halted h' (s.computer.used budget).cycles
  rw [Nat.add_comm] at hlong'
  exact hlong.trans hlong'.symm

/-- A run after turns without one changes nothing if the processor is halted and no prompt is
owed. -/
theorem play_ahead_of_one_runs {a b : List Turn} (htyped : typed a = typed b)
    (ha : hasRun a = true) (hb : hasRun b = false) (hquiet : s.Quiet a)
    (hhalted : s.computer.cpu.halted = true) (ho : s.owesPrompt = false) :
    (s.play b).Ahead [] (s.play a) := by
  obtain ⟨budget, hplay⟩ := play_of_hasRun ha hquiet
  rw [play_of_hasRun_eq_false hb, ← htyped]
  exact (resume_of_halted (s := s.type (typed a)) hhalted ho budget).1.trans hplay

theorem play_ahead_play {a b : List Turn} (htyped : typed a = typed b)
    (hquiet : s.Quiet a) (hquiet' : s.Quiet b)
    (ha : (s.play a).computer.cpu.halted = true) (hb : (s.play b).computer.cpu.halted = true)
    (hprompt : s.computer.cpu.halted = true → s.owesPrompt = true → hasRun a = hasRun b) :
    (s.play a).Ahead [] (s.play b) := by
  cases hrun : hasRun a <;> cases hrun' : hasRun b
  -- neither runs
  · rw [play_of_hasRun_eq_false hrun, play_of_hasRun_eq_false hrun', htyped]
    exact Ahead.refl _
  -- one of them runs, so the processor was halted from the start
  · rw [play_of_hasRun_eq_false hrun] at ha
    have ho : s.owesPrompt = false := by
      simpa [hrun, hrun'] using hprompt ha
    exact play_ahead_of_one_runs htyped.symm hrun' hrun hquiet' ha ho
  · rw [play_of_hasRun_eq_false hrun'] at hb
    have ho : s.owesPrompt = false := by
      simpa [hrun, hrun'] using hprompt hb
    exact (play_ahead_of_one_runs htyped hrun hrun' hquiet hb ho).symm
  -- both run, and each amounts to one run after everything has been typed
  · obtain ⟨budget, hplay⟩ := play_of_hasRun hrun hquiet
    obtain ⟨budget', hplay'⟩ := play_of_hasRun hrun' hquiet'
    rw [← htyped] at hplay'
    have hhalted := ha
    have hhalted' := hb
    rw [hplay.computer.cpu] at hhalted
    rw [hplay'.computer.cpu] at hhalted'
    exact (hplay.symm.trans (resume_ahead_resume hhalted hhalted')).trans hplay'

/-! ## Stopping for input -/

theorem parks_of_outcome {budget : Nat} (h : (s.resume budget).2.outcome = .awaitingInput) :
    (s.resume budget).1 = s.ranFor budget ∧ s.computer.parks budget = true := by
  have hparts : (s.computer.stop budget).cpu.halted = false ∧
      s.computer.parks budget = true := by
    obtain ⟨c, n, i, a, o, m⟩ := s
    simp only [resume, Computer.run_eq] at h
    cases hhalted : (c.stop budget).cpu.halted with
    | true => simp [hhalted] at h
    | false =>
      cases hparks : c.parks budget with
      | true => exact ⟨rfl, rfl⟩
      | false => simp [hhalted, hparks] at h
  have hrunning : (s.ranFor budget).computer.cpu.halted = false := hparts.1
  rw [resume_fst, hrunning, settlePrompt_false]
  exact ⟨rfl, hparts.2⟩

/-- A run that stops for input stands right in front of the call that has to wait, and the
call has done nothing. -/
theorem resume_of_awaitingInput {budget : Nat}
    (h : (s.resume budget).2.outcome = .awaitingInput) :
    (s.resume budget).1.computer.advance = ((s.resume budget).1.computer, .waiting) ∧
      (s.resume budget).1.Ahead [] (s.resume (s.computer.used budget).cycles).1 := by
  obtain ⟨hran, hparks⟩ := parks_of_outcome h
  have hcounted : (s.computer.stop budget).Ahead [] (s.ranFor budget).computer :=
    ⟨rfl, rfl, rfl, (Console.type_nil _).symm⟩
  have hwaiting := hcounted.advance_waiting (Computer.advance_stop_of_parks hparks)
  have hrunning := (Computer.waits_of_advance_waiting hwaiting).1
  obtain ⟨hstop, hused, _⟩ := Computer.run_used budget s.computer
  have hsame : (s.ranFor budget).Ahead [] (s.ranFor (s.computer.used budget).cycles) := by
    rw [ranFor, ranFor, hstop, hused]
    exact ⟨⟨rfl, rfl, rfl, (Console.type_nil _).symm⟩, rfl, rfl, rfl, rfl⟩
  rw [hran, resume_fst, hsame.computer.cpu, hrunning, settlePrompt_false]
  exact ⟨hwaiting, hsame⟩

/-- A run taken up again after something has been typed goes on as if that had been typed
before it. -/
theorem resume_type_resume {budget : Nat} (hquiet : s.computer.QuietFor budget)
    (bytes : List UInt8) (more : Nat) :
    (((s.resume budget).1.type bytes).resume more).1.Ahead []
      ((s.type bytes).resume ((s.computer.used budget).cycles + more)).1 := by
  have htyped := type_resume hquiet bytes
  have hparts := (resume_resume (s.computer.used budget).cycles more (s.type bytes)).1
  have hused : (s.type bytes).computer.used (s.computer.used budget).cycles =
      s.computer.used budget := ((ahead_type s bytes).computer.run hquiet).2.1
  rw [hused] at hparts
  exact (htyped.resume more).trans hparts

/-- If no `IN` is executed, two sequences of turns with the same typed bytes that both end
halted end in the same state; only a prompt that was owed before the first turn must be given
back in both or in neither. A run that stops for input has done nothing about the call that
waits, and typing then and going on does what typing before it would have done. -/
theorem input_timing (s : Session) :
    (∀ a b : List Turn, typed a = typed b → s.Quiet a → s.Quiet b →
      (s.play a).computer.cpu.halted = true → (s.play b).computer.cpu.halted = true →
      (s.computer.cpu.halted = true → s.owesPrompt = true → hasRun a = hasRun b) →
      (s.play a).SameState (s.play b)) ∧
    ∀ budget, (s.run none budget).2.outcome = .awaitingInput →
      let parked := (s.run none budget).1
      let cycles := (s.run none budget).2.cycles
      parked.computer.advance = (parked.computer, .waiting) ∧
        parked.SameState (s.run none cycles).1 ∧
        (s.computer.QuietFor budget → ∀ bytes more,
          ((parked.type bytes).run none more).1.SameState
            ((s.type bytes).run none (cycles + more)).1) := by
  constructor
  · intro a b htyped hquiet hquiet' ha hb hprompt
    exact (play_ahead_play htyped hquiet hquiet' ha hb hprompt).sameState
  · intro budget hawaiting
    obtain ⟨hwaiting, hsame⟩ := resume_of_awaitingInput hawaiting
    dsimp only [run]
    rw [(resume_snd budget s).1]
    refine ⟨hwaiting, hsame.sameState, fun hquiet bytes more => ?_⟩
    exact (resume_type_resume hquiet bytes more).sameState

/-- A call for a byte that returns to the warm boot. -/
def atByteRead : Session :=
  (ofDrives []).perform (.setRegisters { pc := Computer.entryPoint, c := 1, sp := 0x40 })

theorem input_timing_atByteRead :
    typed [.type [0x41], .run 9, .run 100] = typed [.run 100, .run 7, .type [0x41], .run 100] ∧
      (atByteRead.play [.type [0x41], .run 9, .run 100]).SameState
        (atByteRead.play [.run 100, .run 7, .type [0x41], .run 100]) := by
  have hearly : atByteRead.Quiet [.type [0x41], .run 9, .run 100] := by decide +kernel
  have hlate : atByteRead.Quiet [.run 100, .run 7, .type [0x41], .run 100] := by decide +kernel
  have hhalted : (atByteRead.play [.type [0x41], .run 9, .run 100]).computer.cpu.halted = true := by
    decide +kernel
  have hhalted' : (atByteRead.play
      [.run 100, .run 7, .type [0x41], .run 100]).computer.cpu.halted = true := by
    decide +kernel
  exact ⟨rfl, (input_timing atByteRead).1 _ _ rfl hearly hlate hhalted hhalted' fun _ _ => rfl⟩

/-- After a step that halted, the prompt is shown if a run follows, and only then. -/
theorem exists_turns_output_ne : ¬∀ (s : Session) (a b : List Turn), typed a = typed b →
    s.Quiet a → s.Quiet b → (s.play a).computer.cpu.halted = true →
    (s.play b).computer.cpu.halted = true →
    (s.play a).computer.station.console.output =
      (s.play b).computer.station.console.output := by
  intro h
  have hhalted : (haltStarted.step.1.play []).computer.cpu.halted = true := by decide +kernel
  have hrun : (haltStarted.step.1.play [.run 0]).computer.cpu.halted = true := by decide +kernel
  have hquiet : haltStarted.step.1.Quiet [.run 0] := by decide +kernel
  have hshown : (haltStarted.step.1.play []).computer.station.console.output.size ≠
      (haltStarted.step.1.play [.run 0]).computer.station.console.output.size := by decide +kernel
  exact hshown
    (congrArg Array.size (h haltStarted.step.1 [] [.run 0] rfl trivial hquiet hhalted hrun))

end Cpm80.Session
