import Cpm80.Proofs.Devices
import Cpm80.Proofs.Runs
import Cpm80.Proofs.TypedInput

/-!
# Typing ahead

Two computers are compared of which the second has some more bytes typed and is otherwise in
the same state, usage counts aside. As long as the program neither waits for input nor reads
a port, each action does the same to both, and they stay apart by just these bytes. With no
bytes at all this says that the usage counts have no influence.
-/
namespace Cpm80

/-- `t` is `s` after `bytes` have been typed. Usage is left out of account. -/
structure Station.Ahead (bytes : List UInt8) (s t : Station) : Prop where
  memory : t.memory = s.memory
  disk : t.disk = s.disk
  console : t.console = s.console.type bytes

/-- `d` is `c` after `bytes` have been typed. Usage is left out of account. -/
structure Computer.Ahead (bytes : List UInt8) (c d : Computer) : Prop where
  cpu : d.cpu = c.cpu
  station : c.station.Ahead bytes d.station

variable {bytes : List UInt8}

theorem Station.Ahead.exists_usage {s t : Station} (h : s.Ahead bytes t) :
    ∃ u, t = ⟨s.memory, s.disk, s.console.type bytes, u⟩ := by
  obtain ⟨m, d, c, u⟩ := t
  obtain ⟨hm, hd, hc⟩ := h
  exact ⟨u, by congr⟩

theorem Station.Ahead.onDisk {s t : Station} (h : s.Ahead bytes t) (f : DiskSystem → DiskSystem) :
    (s.onDisk f).Ahead bytes (t.onDisk f) := by
  obtain ⟨u, rfl⟩ := h.exists_usage
  exact ⟨rfl, rfl, rfl⟩

theorem Station.Ahead.onConsole {s t : Station} (h : s.Ahead bytes t) {f : Console → Console}
    (hf : ∀ c : Console, f (c.type bytes) = (f c).type bytes) :
    (s.onConsole f).Ahead bytes (t.onConsole f) := by
  obtain ⟨u, rfl⟩ := h.exists_usage
  exact ⟨rfl, rfl, hf s.console⟩

theorem Station.Ahead.onFiles {s t : Station} (h : s.Ahead bytes t)
    (f : DiskSystem → Memory → DiskSystem.Reply) :
    (s.onFiles f).1.Ahead bytes (t.onFiles f).1 ∧ (t.onFiles f).2 = (s.onFiles f).2 := by
  obtain ⟨u, rfl⟩ := h.exists_usage
  exact ⟨⟨rfl, rfl, rfl⟩, rfl⟩

/-! ## System calls -/

namespace SystemCall

theorem readByte_ahead {s t : Station} (h : s.Ahead bytes t)
    (hinput : s.console.hasInput = true) :
    (readByte s).1.Ahead bytes (readByte t).1 ∧ (readByte t).2 = (readByte s).2 := by
  obtain ⟨v, rfl⟩ := h.exists_usage
  obtain ⟨m, d, c, u⟩ := s
  have hget : (c.type bytes).getByte = (c.getByte.1, c.getByte.2.type bytes) :=
    Console.getByte_type hinput bytes
  simp only [readByte, hget]
  obtain ⟨_ | b, c⟩ := c.getByte
  · exact ⟨⟨rfl, rfl, rfl⟩, rfl⟩
  · exact ⟨⟨rfl, rfl, rfl⟩, rfl⟩

theorem readBuffer_ahead {s t : Station} (h : s.Ahead bytes t) (buffer : UInt16)
    (hline : s.console.hasLine = true) :
    (readBuffer buffer s).Ahead bytes (readBuffer buffer t) := by
  obtain ⟨v, rfl⟩ := h.exists_usage
  obtain ⟨m, d, c, u⟩ := s
  have hget : (c.type bytes).getLine = (c.getLine.1, c.getLine.2.type bytes) :=
    Console.getLine_type hline bytes
  simp only [readBuffer, hget]
  exact ⟨rfl, rfl, rfl⟩

theorem execute_ahead {s t : Station} (h : s.Ahead bytes t) {call : SystemCall}
    (hbyte : call = consoleInput → s.console.hasInput = true)
    (hline : call = readLine → s.console.hasLine = true) (parameter : UInt16) :
    (call.execute parameter s).1.Ahead bytes (call.execute parameter t).1 ∧
      (call.execute parameter t).2 = (call.execute parameter s).2 := by
  cases call with
  | systemReset | resetDisks | setTransfer | setUser =>
    simp only [execute, and_true]
    exact h.onDisk _
  | consoleInput => exact readByte_ahead h (hbyte rfl)
  | consoleOutput =>
    simp only [execute, and_true]
    exact h.onConsole fun c => c.putByte_type _ bytes
  | printString =>
    simp only [execute, h.memory, and_true]
    exact h.onConsole fun c => c.putBytes_type _ bytes
  | readLine => exact ⟨readBuffer_ahead h parameter (hline rfl), rfl⟩
  | consoleStatus | version => exact ⟨h, rfl⟩
  | selectDisk =>
    simp only [execute, h.disk]
    split
    · exact ⟨h.onDisk fun _ => _, rfl⟩
    · exact ⟨h, rfl⟩
  | currentDisk | getUser =>
    simp only [execute, h.disk, and_true]
    exact h
  | openFile | closeFile | searchFirst | searchNext | deleteFiles | readSequential
  | writeSequential | makeFile | renameFile => exact h.onFiles _

theorem perform_ahead {s t : Station} (h : s.Ahead bytes t) {function : UInt8}
    (hready : Computer.waitsForInput function s.console = false) (parameter : UInt16) :
    (perform function parameter s).1.Ahead bytes (perform function parameter t).1 ∧
      (perform function parameter t).2 = (perform function parameter s).2 := by
  unfold perform
  unfold Computer.waitsForInput at hready
  cases hcall : ofFunction? function with
  | none => exact ⟨h, rfl⟩
  | some call =>
    refine execute_ahead h (fun hc => ?_) (fun hc => ?_) parameter <;>
      simpa [hcall, hc] using hready

end SystemCall

/-! ## Actions -/

theorem consoleBus_passes_type (bytes : List UInt8) :
    consoleBus.Passes fun c => c.type bytes :=
  ⟨fun _ v c => c.putByte_type v bytes, fun _ => rfl⟩

namespace Computer

/-- The next action is an `IN`, which takes what is there without waiting for it. -/
def ReadsPort (c : Computer) : Prop :=
  c.cpu.halted = false ∧ c.cpu.pc ≠ entryPoint ∧
    Instruction.ofOpcode (c.station.memory.read c.cpu.pc) = .input

instance (c : Computer) : Decidable c.ReadsPort :=
  inferInstanceAs (Decidable (_ ∧ _))

theorem waitsForInput_type {function : UInt8} {con : Console}
    (h : waitsForInput function con = false) (bytes : List UInt8) :
    waitsForInput function (con.type bytes) = false := by
  unfold waitsForInput at h ⊢
  split at h
  · simpa using Console.hasInput_type (by simpa using h) bytes
  · simpa using Console.hasLine_type (by simpa using h) bytes
  · rfl

/-- The state after `n` actions. -/
def after : Nat → Computer → Computer
  | 0, c => c
  | n + 1, c => after n c.advance.1

/-- No action of a run for `budget` cycles is an `IN`. -/
def QuietFor (budget : Nat) (c : Computer) : Prop :=
  ∀ i < (c.used budget).instructions, ¬(c.after i).ReadsPort

instance (budget : Nat) (c : Computer) : Decidable (c.QuietFor budget) :=
  inferInstanceAs (Decidable (∀ i < _, ¬ReadsPort _))

variable {c d : Computer} {budget cost : Nat}

theorem quietFor_executed (hb : budget ≠ 0) (h : c.advance = (d, .executed cost)) :
    c.QuietFor budget ↔ ¬c.ReadsPort ∧ d.QuietFor (budget - cost) := by
  have hafter : ∀ i, c.after (i + 1) = d.after i := fun i => by rw [after, h]
  simp only [QuietFor, used_executed hb h, Machine.Tally.instructions_add]
  constructor
  · intro hq
    refine ⟨hq 0 (by omega), fun i hi => ?_⟩
    rw [← hafter]
    exact hq (i + 1) (by omega)
  · rintro ⟨hfirst, hrest⟩ (_ | i) hi
    · exact hfirst
    · rw [hafter]
      exact hrest i (by omega)

namespace Ahead

theorem refl (c : Computer) : c.Ahead [] c :=
  ⟨rfl, rfl, rfl, (Console.type_nil _).symm⟩

theorem serve (h : c.Ahead bytes d)
    (hready : waitsForInput c.cpu.c c.station.console = false) :
    c.serve.Ahead bytes d.serve := by
  obtain ⟨p, s⟩ := c
  obtain ⟨q, t⟩ := d
  obtain ⟨hcpu, hstation⟩ := h
  obtain rfl : q = p := hcpu
  obtain ⟨hperformed, hanswer⟩ := SystemCall.perform_ahead hstation hready q.de
  obtain ⟨u, hu⟩ := hperformed.exists_usage
  simp only [Computer.serve, hanswer, hu, Station.onUsage]
  split <;> exact ⟨rfl, rfl, rfl, rfl⟩

theorem executeInstruction (h : c.Ahead bytes d) (hrunning : c.cpu.halted = false)
    (hpc : c.cpu.pc ≠ entryPoint) (hquiet : c.ReadsPort → bytes = []) :
    c.executeInstruction.1.Ahead bytes d.executeInstruction.1 ∧
      d.executeInstruction.2 = c.executeInstruction.2 := by
  obtain ⟨p, s⟩ := c
  obtain ⟨q, t⟩ := d
  obtain ⟨hcpu, hstation⟩ := h
  obtain rfl : q = p := hcpu
  obtain ⟨v, rfl⟩ := hstation.exists_usage
  obtain ⟨m, ds, con, u⟩ := s
  have hstep : (⟨q, m, con.type bytes⟩ : Machine Console).step consoleBus =
      (((⟨q, m, con⟩ : Machine Console).step consoleBus).1.onDevices fun c => c.type bytes,
        ((⟨q, m, con⟩ : Machine Console).step consoleBus).2) := by
    by_cases hb : bytes = []
    · subst hb
      simp [Machine.onDevices]
    · refine Machine.step_onDevices (consoleBus_passes_type bytes) (m := ⟨q, m, con⟩) ?_
      intro _ hin
      exact hb (hquiet ⟨hrunning, hpc, hin⟩)
  simp only [Computer.executeInstruction, hstep, and_true]
  exact ⟨rfl, rfl, rfl, rfl⟩

theorem advance_executed {c' : Computer} {cost : Nat} (h : c.Ahead bytes d)
    (hquiet : c.ReadsPort → bytes = []) (hc : c.advance = (c', .executed cost)) :
    ∃ d', d.advance = (d', .executed cost) ∧ c'.Ahead bytes d' := by
  cases advances_of_eq hc with
  | serves hrunning hpc hready =>
    refine ⟨d.serve, ?_, h.serve hready⟩
    have hd : waitsForInput d.cpu.c d.station.console = false := by
      rw [h.cpu, h.station.console]
      exact waitsForInput_type hready bytes
    simp [advance, h.cpu, hrunning, hpc] at hd ⊢
    simp [hd]
  | executes hrunning hpc =>
    obtain ⟨hnext, hcost⟩ := h.executeInstruction hrunning hpc hquiet
    refine ⟨d.executeInstruction.1, ?_, hnext⟩
    simp [advance, h.cpu, hrunning, hpc, hcost]

theorem advance_halted (h : c.Ahead bytes d) (hc : c.advance = (c, .halted)) :
    d.advance = (d, .halted) := by
  apply advance_of_halted
  rw [h.cpu]
  exact halted_of_advance_halted hc

theorem advance_waiting (h : c.Ahead [] d) (hc : c.advance = (c, .waiting)) :
    d.advance = (d, .waiting) := by
  obtain ⟨hrunning, hpc, hwaits⟩ := waits_of_advance_waiting hc
  have hconsole := h.station.console
  rw [Console.type_nil] at hconsole
  simp [advance, h.cpu, hrunning, hpc, hconsole, hwaits]

/-! ## Runs -/

/-- What a run does is not changed by what has been typed ahead, if it executes no `IN` and is
stopped after the same number of cycles: with more input it might not have to wait. -/
theorem run (h : c.Ahead bytes d) (hquiet : c.QuietFor budget) :
    (c.stop budget).Ahead bytes (d.stop (c.used budget).cycles) ∧
      d.used (c.used budget).cycles = c.used budget ∧
      d.parks (c.used budget).cycles = false := by
  induction budget, c using run_induction generalizing d with
  | zero c => simpa using h
  | @executed budget cost c c' hb hc ih =>
    obtain ⟨hfirst, hrest⟩ := (quietFor_executed hb hc).mp hquiet
    obtain ⟨d', hd, h'⟩ := h.advance_executed (fun hin => absurd hin hfirst) hc
    have hpos := cost_pos hc
    rw [used_executed hb hc, Machine.Tally.cycles_add]
    have hne : cost + (c'.used (budget - cost)).cycles ≠ 0 := by omega
    have hsub : cost + (c'.used (budget - cost)).cycles - cost =
        (c'.used (budget - cost)).cycles := by omega
    obtain ⟨hstop, hused, hparks⟩ := ih h' hrest
    rw [stop_executed hb hc, stop_executed hne hd, used_executed hne hd, parks_executed hne hd,
      hsub, hused]
    exact ⟨hstop, rfl, hparks⟩
  | halted hc => simpa [stop_halted hc, used_halted hc] using h
  | waiting hb hc => simpa [stop_waiting hc, used_waiting hc] using h

/-- The usage counts do not influence a run. -/
theorem run_nil (h : c.Ahead [] d) (budget : Nat) :
    (c.stop budget).Ahead [] (d.stop budget) ∧ d.used budget = c.used budget ∧
      d.parks budget = c.parks budget := by
  induction budget, c using run_induction generalizing d with
  | zero c => simpa using h
  | executed hb hc ih =>
    obtain ⟨d', hd, h'⟩ := h.advance_executed (fun _ => rfl) hc
    obtain ⟨hstop, hused, hparks⟩ := ih h'
    rw [stop_executed hb hc, stop_executed hb hd, used_executed hb hc, used_executed hb hd,
      parks_executed hb hc, parks_executed hb hd, hused]
    exact ⟨hstop, rfl, hparks⟩
  | halted hc =>
    have hd := h.advance_halted hc
    simpa [stop_halted hc, stop_halted hd, used_halted hc, used_halted hd, parks_halted hc,
      parks_halted hd] using h
  | waiting hb hc =>
    have hd := h.advance_waiting hc
    simpa [stop_waiting hc, stop_waiting hd, used_waiting hc, used_waiting hd,
      parks_waiting hb hc, parks_waiting hb hd] using h

end Ahead

end Computer

end Cpm80
