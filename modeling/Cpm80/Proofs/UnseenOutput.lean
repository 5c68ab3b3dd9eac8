import Cpm80.Proofs.Devices
import Cpm80.Proofs.Runs

/-!
# Output that nobody has seen yet

What has been shown and not been looked at waits in the console, and nothing that a computer
does depends on it. Two computers are compared of which the second has some more bytes waiting
in front of what the first has shown. Each action does the same to both, and they stay apart by
just these bytes, usage counts aside.
-/
namespace Cpm80

/-! ## The console -/

namespace Console

/-- The console behind bytes that were shown before and have not been seen. -/
def behind (front : Array UInt8) (c : Console) : Console :=
  ⟨c.input, front ++ c.output, c.afterReturn⟩

variable {front : Array UInt8}

/-- Behind some bytes a blank console has them on its screen. -/
theorem behind_blank (output : Array UInt8) :
    behind output {} = { input := [], output, afterReturn := false } := by
  rw [behind, Array.append_empty]

theorem putByte_behind (c : Console) (b : UInt8) :
    (c.behind front).putByte b = (c.putByte b).behind front := by
  rw [behind, putByte, putByte, behind, Array.append_push]

theorem putBytes_behind (c : Console) (bytes : List UInt8) :
    (c.behind front).putBytes bytes = (c.putBytes bytes).behind front := by
  simp only [behind, putBytes, Console.mk.injEq, true_and, and_true]
  exact Array.ext' (by simp)

theorem print_behind (c : Console) (text : String) :
    (c.behind front).print text = (c.print text).behind front :=
  putBytes_behind c _

theorem endLine_behind (c : Console) : (c.behind front).endLine = c.endLine.behind front :=
  putBytes_behind c _

theorem printLine_behind (c : Console) (text : String) :
    (c.behind front).printLine text = (c.printLine text).behind front := by
  rw [printLine, print_behind, endLine_behind, printLine]

theorem getByte_behind (c : Console) :
    (c.behind front).getByte = (c.getByte.1, c.getByte.2.behind front) := by
  obtain ⟨input, output, r⟩ := c
  cases input <;> rfl

theorem getLine_behind (c : Console) :
    (c.behind front).getLine = (c.getLine.1, c.getLine.2.behind front) := by
  unfold getLine
  have hinput : (c.behind front).input = c.input := rfl
  rw [hinput]
  split <;> rfl

end Console

/-! ## Stations -/

/-- `t` is `s` behind bytes that have not been seen. Usage is left out of account. -/
structure Station.Unseen (front : Array UInt8) (s t : Station) : Prop where
  memory : t.memory = s.memory
  disk : t.disk = s.disk
  console : t.console = s.console.behind front

namespace Station.Unseen

variable {front : Array UInt8} {s t : Station}

theorem exists_usage (h : s.Unseen front t) :
    ∃ u, t = ⟨s.memory, s.disk, s.console.behind front, u⟩ := by
  obtain ⟨m, d, c, u⟩ := t
  obtain ⟨hm, hd, hc⟩ := h
  exact ⟨u, by congr⟩

theorem onDisk (h : s.Unseen front t) (f : DiskSystem → DiskSystem) :
    (s.onDisk f).Unseen front (t.onDisk f) := by
  obtain ⟨u, rfl⟩ := h.exists_usage
  exact ⟨rfl, rfl, rfl⟩

theorem onMemory (h : s.Unseen front t) (f : Memory → Memory) :
    (s.onMemory f).Unseen front (t.onMemory f) := by
  obtain ⟨u, rfl⟩ := h.exists_usage
  exact ⟨rfl, rfl, rfl⟩

theorem onUsage (h : s.Unseen front t) (f g : Usage → Usage) :
    (s.onUsage f).Unseen front (t.onUsage g) := by
  obtain ⟨u, rfl⟩ := h.exists_usage
  exact ⟨rfl, rfl, rfl⟩

theorem onConsole (h : s.Unseen front t) {f : Console → Console}
    (hf : ∀ c : Console, f (c.behind front) = (f c).behind front) :
    (s.onConsole f).Unseen front (t.onConsole f) := by
  obtain ⟨u, rfl⟩ := h.exists_usage
  exact ⟨rfl, rfl, hf s.console⟩

theorem onFiles (h : s.Unseen front t) (f : DiskSystem → Memory → DiskSystem.Reply) :
    (s.onFiles f).1.Unseen front (t.onFiles f).1 ∧ (t.onFiles f).2 = (s.onFiles f).2 := by
  obtain ⟨u, rfl⟩ := h.exists_usage
  exact ⟨⟨rfl, rfl, rfl⟩, rfl⟩

theorem print (h : s.Unseen front t) (text : String) :
    (s.print text).Unseen front (t.print text) :=
  h.onConsole fun c => c.print_behind text

theorem printLine (h : s.Unseen front t) (text : String) :
    (s.printLine text).Unseen front (t.printLine text) :=
  h.onConsole fun c => c.printLine_behind text

/-- What holds of one step holds of a row of them. -/
theorem foldl {α : Type} (h : s.Unseen front t) {f : Station → α → Station}
    (hf : ∀ s t x, s.Unseen front t → (f s x).Unseen front (f t x)) (items : List α) :
    (items.foldl f s).Unseen front (items.foldl f t) := by
  induction items generalizing s t with
  | nil => exact h
  | cons x rest ih => exact ih (hf s t x h)

theorem printLines (h : s.Unseen front t) (lines : List String) :
    (s.printLines lines).Unseen front (t.printLines lines) :=
  h.foldl (fun _ _ text h => h.printLine text) lines

end Station.Unseen

/-! ## System calls -/

namespace SystemCall

variable {front : Array UInt8} {s t : Station}

theorem readByte_unseen (h : s.Unseen front t) :
    (readByte s).1.Unseen front (readByte t).1 ∧ (readByte t).2 = (readByte s).2 := by
  obtain ⟨v, rfl⟩ := h.exists_usage
  obtain ⟨m, d, c, u⟩ := s
  simp only [readByte, Console.getByte_behind]
  obtain ⟨_ | b, c⟩ := c.getByte
  · exact ⟨⟨rfl, rfl, rfl⟩, rfl⟩
  · exact ⟨⟨rfl, rfl, c.putByte_behind b⟩, rfl⟩

theorem readBuffer_unseen (h : s.Unseen front t) (buffer : UInt16) :
    (readBuffer buffer s).Unseen front (readBuffer buffer t) := by
  obtain ⟨v, rfl⟩ := h.exists_usage
  obtain ⟨m, d, c, u⟩ := s
  simp only [readBuffer, Console.getLine_behind, Console.putBytes_behind,
    Console.endLine_behind]
  exact ⟨rfl, rfl, rfl⟩

theorem execute_unseen (h : s.Unseen front t) (call : SystemCall) (parameter : UInt16) :
    (call.execute parameter s).1.Unseen front (call.execute parameter t).1 ∧
      (call.execute parameter t).2 = (call.execute parameter s).2 := by
  cases call with
  | systemReset | resetDisks | setTransfer | setUser =>
    simp only [execute, and_true]
    exact h.onDisk _
  | consoleInput => exact readByte_unseen h
  | consoleOutput =>
    simp only [execute, and_true]
    exact h.onConsole fun c => c.putByte_behind _
  | printString =>
    simp only [execute, h.memory, and_true]
    exact h.onConsole fun c => c.putBytes_behind _
  | readLine => exact ⟨readBuffer_unseen h parameter, rfl⟩
  | consoleStatus | version => exact ⟨h, rfl⟩
  | selectDisk =>
    simp only [execute, h.disk]
    split
    · exact ⟨h.onDisk fun _ => _, rfl⟩
    · exact ⟨h, rfl⟩
  | currentDisk | getUser =>
    simp only [execute, h.disk, and_true]
    exact h
  | openFile | closeFile | searchFirst | searchNext | deleteFiles | readSequential
  | writeSequential | makeFile | renameFile => exact h.onFiles _

theorem perform_unseen (h : s.Unseen front t) (function : UInt8) (parameter : UInt16) :
    (perform function parameter s).1.Unseen front (perform function parameter t).1 ∧
      (perform function parameter t).2 = (perform function parameter s).2 := by
  unfold perform
  cases ofFunction? function with
  | none => exact ⟨h, rfl⟩
  | some call => exact execute_unseen h call parameter

end SystemCall

/-! ## Computers -/

/-- An instruction commutes with a change of the devices that does not show in what they answer
to any of their signals. -/
theorem Machine.step_onDevices_of_input {σ : Type} {bus : Bus σ} {f : σ → σ}
    (h : bus.Passes f)
    (hinput : ∀ port s, bus.input port (f s) = ((bus.input port s).1, f (bus.input port s).2))
    (m : Machine σ) :
    (m.onDevices f).step bus = ((m.step bus).1.onDevices f, (m.step bus).2) := by
  by_cases hin : m.cpu.halted = true ∨ m.next ≠ .input
  · exact step_onDevices h hin.resolve_left
  · obtain ⟨hrunning, hnext⟩ := not_or.mp hin
    have hexecute (m : Machine σ) :
        (m.onDevices f).execute bus .input = (m.execute bus .input).onDevices f := by
      obtain ⟨p, mem, dev⟩ := m
      simp [execute, onDevices, fetch, hinput]
    have hrunning' : ¬(m.onDevices f).cpu.halted = true := hrunning
    have hnext' : (m.onDevices f).next = m.next := rfl
    have hinstruction : m.next = .input := Classical.not_not.mp hnext
    simp only [step, if_neg hrunning, if_neg hrunning', hnext', hinstruction]
    exact congrArg (·, _) (hexecute m.fetch.2)

theorem consoleBus_passes_behind (front : Array UInt8) :
    consoleBus.Passes fun c => c.behind front :=
  ⟨fun _ v c => c.putByte_behind v, fun _ => rfl⟩

theorem input_consoleBus_behind (front : Array UInt8) (port : UInt8) (c : Console) :
    consoleBus.input port (c.behind front) =
      ((consoleBus.input port c).1, (consoleBus.input port c).2.behind front) := by
  obtain ⟨input, output, r⟩ := c
  cases input <;> rfl

/-- `d` is `c` behind bytes that have not been seen. Usage is left out of account. -/
structure Computer.Unseen (front : Array UInt8) (c d : Computer) : Prop where
  cpu : d.cpu = c.cpu
  station : c.station.Unseen front d.station

namespace Computer.Unseen

variable {front : Array UInt8} {c d : Computer}

theorem start (h : c.Unseen front d) (entry : UInt16) :
    (c.start entry).Unseen front (d.start entry) := by
  obtain ⟨p, s⟩ := c
  obtain ⟨q, t⟩ := d
  obtain ⟨u, rfl⟩ := h.station.exists_usage
  exact ⟨rfl, rfl, rfl, rfl⟩

theorem serve (h : c.Unseen front d) : c.serve.Unseen front d.serve := by
  obtain ⟨p, s⟩ := c
  obtain ⟨q, t⟩ := d
  obtain ⟨hcpu, hstation⟩ := h
  obtain rfl : q = p := hcpu
  obtain ⟨hperformed, hanswer⟩ := SystemCall.perform_unseen hstation q.c q.de
  obtain ⟨u, hu⟩ := hperformed.exists_usage
  simp only [Computer.serve, hanswer, hu, Station.onUsage]
  split <;> exact ⟨rfl, rfl, rfl, rfl⟩

theorem executeInstruction (h : c.Unseen front d) :
    c.executeInstruction.1.Unseen front d.executeInstruction.1 ∧
      d.executeInstruction.2 = c.executeInstruction.2 := by
  obtain ⟨p, s⟩ := c
  obtain ⟨q, t⟩ := d
  obtain ⟨hcpu, hstation⟩ := h
  obtain rfl : q = p := hcpu
  obtain ⟨v, rfl⟩ := hstation.exists_usage
  obtain ⟨m, ds, con, u⟩ := s
  have hstep : (⟨q, m, con.behind front⟩ : Machine Console).step consoleBus =
      (((⟨q, m, con⟩ : Machine Console).step consoleBus).1.onDevices fun c => c.behind front,
        ((⟨q, m, con⟩ : Machine Console).step consoleBus).2) :=
    Machine.step_onDevices_of_input (consoleBus_passes_behind front)
      (input_consoleBus_behind front) ⟨q, m, con⟩
  simp only [Computer.executeInstruction, hstep, and_true]
  exact ⟨rfl, rfl, rfl, rfl⟩

theorem advance (h : c.Unseen front d) :
    c.advance.1.Unseen front d.advance.1 ∧ d.advance.2 = c.advance.2 := by
  have hwaits : waitsForInput d.cpu.c d.station.console =
      waitsForInput c.cpu.c c.station.console := by
    rw [h.cpu, h.station.console]
    rfl
  obtain ⟨hexecuted, hcost⟩ := h.executeInstruction
  unfold Computer.advance
  rw [hwaits, h.cpu]
  split
  · exact ⟨h, rfl⟩
  split
  · split
    · exact ⟨h, rfl⟩
    · exact ⟨h.serve, rfl⟩
  · exact ⟨hexecuted, congrArg Progress.executed hcost⟩

theorem run (h : c.Unseen front d) (budget : Nat) :
    (c.stop budget).Unseen front (d.stop budget) ∧ d.used budget = c.used budget ∧
      d.parks budget = c.parks budget := by
  induction budget, c using run_induction generalizing d with
  | zero c => simpa using h
  | executed hb hc ih =>
    obtain ⟨hnext, hprogress⟩ := h.advance
    rw [hc] at hnext hprogress
    have hd : d.advance = (d.advance.1, .executed _) := Prod.ext rfl hprogress
    obtain ⟨hstop, hused, hparks⟩ := ih hnext
    rw [stop_executed hb hc, stop_executed hb hd, used_executed hb hc, used_executed hb hd,
      parks_executed hb hc, parks_executed hb hd, hused]
    exact ⟨hstop, rfl, hparks⟩
  | halted hc =>
    have hd : d.advance = (d, .halted) := by
      apply advance_of_halted
      rw [h.cpu]
      exact halted_of_advance_halted hc
    simpa [stop_halted hc, stop_halted hd, used_halted hc, used_halted hd, parks_halted hc,
      parks_halted hd] using h
  | waiting hb hc =>
    have hprogress := h.advance.2
    rw [hc] at hprogress
    have hd : d.advance = (d, .waiting) := by
      have hpair : d.advance = (d.advance.1, .waiting) := Prod.ext rfl hprogress
      rw [hpair, eq_of_advance_waiting hpair]
    simpa [stop_waiting hc, stop_waiting hd, used_waiting hc, used_waiting hd,
      parks_waiting hb hc, parks_waiting hb hd] using h

end Computer.Unseen

end Cpm80
