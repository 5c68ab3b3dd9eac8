import Mathlib.Data.List.Induction
import Cpm80.Proofs.ControlFlow

/-!
# Halting and interrupts

Three things are done to a processor from outside: it is stepped, interrupted and reset. Two of
its bits decide what comes of that, and neither is ever looked at by an instruction. What the
stimuli bring about is written down as a history: a step executes an instruction unless the
processor is halted, and an interrupt is accepted if interrupts are enabled. The two bits follow
from this history alone, in every machine and with all devices, and the devices hear of a halt
once for each that is executed.
-/
namespace Cpm80

/-- The two bits of a processor that no instruction reads. -/
structure Switches where
  halted : Bool := false
  interruptsEnabled : Bool := false
  deriving DecidableEq, Repr

namespace Switches

/-- What executing an instruction does to the switches. -/
def execute (i : Instruction) (s : Switches) : Switches :=
  match i with
  | .halt => { s with halted := true }
  | .enableInterrupts => { s with interruptsEnabled := true }
  | .disableInterrupts => { s with interruptsEnabled := false }
  | _ => s

end Switches

namespace Processor

def switches (p : Processor) : Switches := ⟨p.halted, p.interruptsEnabled⟩

variable (p : Processor)

@[simp] theorem switches_setFlag (mask : UInt8) (value : Bool) :
    (p.setFlag mask value).switches = p.switches := rfl

@[simp] theorem switches_setResult (v : UInt8) : (p.setResult v).switches = p.switches := by
  simp only [setResult, switches_setFlag]

@[simp] theorem switches_setPair (w : UInt16) (pair : Pair) :
    (p.setPair w pair).switches = p.switches := by
  cases pair <;> rfl

@[simp] theorem switches_setStackPair (w : UInt16) (pair : StackPair) :
    (p.setStackPair w pair).switches = p.switches := by
  cases pair <;> rfl

@[simp] theorem switches_addToHL (w : UInt16) : (p.addToHL w).switches = p.switches := rfl

@[simp] theorem switches_incremented (v : UInt8) :
    (p.incremented v).2.switches = p.switches := by
  simp only [incremented, switches_setResult, switches_setFlag]

@[simp] theorem switches_decremented (v : UInt8) :
    (p.decremented v).2.switches = p.switches := by
  simp only [decremented, switches_setResult, switches_setFlag]

@[simp] theorem switches_add (v : UInt8) (carryIn : Bool) :
    (p.add v carryIn).switches = p.switches := by
  simp only [add, switches, setResult, setFlag]

@[simp] theorem switches_compare (v : UInt8) (borrowIn : Bool) :
    (p.compare v borrowIn).switches = p.switches := by
  simp only [compare, switches, setResult, setFlag]

@[simp] theorem switches_sub (v : UInt8) (borrowIn : Bool) :
    (p.sub v borrowIn).switches = p.switches :=
  switches_compare p v borrowIn

@[simp] theorem switches_logical (result : UInt8) (auxCarry : Bool) :
    (p.logical result auxCarry).switches = p.switches := by
  simp only [logical, switches, setResult, setFlag]

@[simp] theorem switches_arithmetic (op : Arithmetic) (v : UInt8) :
    (p.arithmetic op v).switches = p.switches := by
  cases op <;> simp [arithmetic]

@[simp] theorem switches_decimalAdjust : p.decimalAdjust.switches = p.switches := by
  simp only [decimalAdjust]
  split <;> simp

end Processor

/-- What can be done to a processor from outside. -/
inductive Stimulus where
  | step
  | interrupt (opcode : UInt8)
  | reset
  deriving DecidableEq, Repr

/-- What a stimulus may bring about. -/
inductive Deed where
  | executed (i : Instruction)
  | accepted
  | reset
  deriving DecidableEq, Repr

namespace Deed

/-- Whether it has a say in whether interrupts are enabled. -/
def switchesInterrupts : Deed → Bool
  | executed .enableInterrupts | executed .disableInterrupts | accepted | reset => true
  | _ => false

def change (s : Switches) : Deed → Switches
  | executed i => s.execute i
  | accepted => { s with interruptsEnabled := false }
  | reset => {}

variable (s : Switches) (deed : Deed)

theorem interruptsEnabled_change :
    (deed.change s).interruptsEnabled =
      if deed.switchesInterrupts then decide (deed = executed .enableInterrupts)
      else s.interruptsEnabled := by
  cases deed with
  | executed i => cases i <;> rfl
  | accepted | reset => rfl

theorem halted_change :
    (deed.change s).halted =
      (decide (deed = executed .halt) || s.halted && decide (deed ≠ reset)) := by
  cases deed with
  | executed i => cases i <;> simp [change, Switches.execute]
  | accepted | reset => simp [change]

/-- After a history, interrupts are enabled if the last deed in it that has a say in this is
the execution of the instruction that enables them. -/
theorem interruptsEnabled_foldl (history : List Deed) :
    (history.foldl change {}).interruptsEnabled = true ↔
      (history.filter switchesInterrupts).getLast? = some (executed .enableInterrupts) := by
  induction history using List.reverseRecOn with
  | nil => simp
  | append_singleton history deed ih =>
    rw [List.foldl_append, List.foldl_cons, List.foldl_nil, interruptsEnabled_change,
      List.filter_append]
    split
    case isTrue hswitches => simp [hswitches]
    case isFalse hsilent => simpa [hsilent] using ih

/-- After a history, the processor is halted if a halt has been executed since the last reset
in it. -/
theorem halted_foldl (history : List Deed) :
    (history.foldl change {}).halted = true ↔
      ∃ before since, history = before ++ executed .halt :: since ∧ reset ∉ since := by
  induction history using List.reverseRecOn with
  | nil => simp
  | append_singleton history deed ih =>
    rw [List.foldl_append, List.foldl_cons, List.foldl_nil, halted_change, Bool.or_eq_true,
      Bool.and_eq_true, decide_eq_true_iff, decide_eq_true_iff, ih]
    constructor
    · rintro (rfl | ⟨⟨before, since, rfl, hsince⟩, hdeed⟩)
      · exact ⟨history, [], rfl, List.not_mem_nil⟩
      · refine ⟨before, since ++ [deed], by simp, ?_⟩
        simpa [hsince] using hdeed.symm
    · rintro ⟨before, since, hsplit, hsince⟩
      -- the halt is the last deed, or else it is in what went before
      induction since using List.reverseRecOn with
      | nil =>
        have hlast : [deed] = [executed .halt] := List.append_inj_right' hsplit rfl
        exact .inl (List.cons.inj hlast).1
      | append_singleton since last =>
        have hparts : history = before ++ executed .halt :: since ∧ [deed] = [last] :=
          List.append_inj' (by simpa using hsplit) rfl
        obtain ⟨hhistory, hlast⟩ := hparts
        cases hlast
        rw [List.mem_append, List.mem_singleton, not_or] at hsince
        exact .inr ⟨⟨before, since, hhistory, hsince.1⟩, Ne.symm hsince.2⟩

end Deed

namespace Machine

variable {σ : Type} (bus : Bus σ)

def perform (m : Machine σ) : Stimulus → Machine σ × Nat
  | .step => m.step bus
  | .interrupt opcode => m.interrupt bus opcode
  | .reset => (m.reset, 0)

/-- What comes of a stimulus. -/
def deeds (m : Machine σ) : Stimulus → List Deed
  | .step => if m.cpu.halted then [] else [.executed m.next]
  | .interrupt opcode =>
    if m.cpu.interruptsEnabled then [.accepted, .executed (.ofOpcode opcode)] else []
  | .reset => [.reset]

/-- The machine that a list of stimuli leaves. -/
def after (m : Machine σ) : List Stimulus → Machine σ
  | [] => m
  | stimulus :: rest => (m.perform bus stimulus).1.after rest

/-- All that a list of stimuli brings about, in order. -/
def history (m : Machine σ) : List Stimulus → List Deed
  | [] => []
  | stimulus :: rest => m.deeds stimulus ++ (m.perform bus stimulus).1.history rest

@[simp] theorem switches_setRegister (r : Register) (v : UInt8) (m : Machine σ) :
    (m.setRegister r v).cpu.switches = m.cpu.switches := by
  cases r <;> rfl

@[simp] theorem switches_fetch (m : Machine σ) : m.fetch.2.cpu.switches = m.cpu.switches := rfl

/-- Only three instructions touch the switches. -/
@[simp] theorem switches_execute (i : Instruction) (m : Machine σ) :
    (m.execute bus i).cpu.switches = m.cpu.switches.execute i := by
  obtain ⟨p, mem, dev⟩ := m
  cases i with
  | jumpIf c | callIf c | retIf c =>
    simp only [execute]
    split <;> rfl
  | _ =>
    simp [execute, onCpu, pushWord, popWord, fetchWord, fetch, Switches.execute] <;> rfl

theorem step_halted {m : Machine σ} (h : m.cpu.halted = true) : m.step bus = (m, 0) := by
  rw [step, if_pos h]

theorem interrupt_disabled (opcode : UInt8) {m : Machine σ}
    (h : m.cpu.interruptsEnabled = false) : m.interrupt bus opcode = (m, 0) := by
  rw [interrupt, h]
  rfl

theorem interrupt_enabled (opcode : UInt8) {m : Machine σ}
    (h : m.cpu.interruptsEnabled = true) :
    m.interrupt bus opcode =
      ((m.onCpu fun p => { p with interruptsEnabled := false }).execute bus (.ofOpcode opcode),
        (Instruction.ofOpcode opcode).cycles) := by
  rw [interrupt, if_pos h]

/-- The switches after a stimulus follow from what came of it. -/
theorem switches_perform (m : Machine σ) (stimulus : Stimulus) :
    (m.perform bus stimulus).1.cpu.switches =
      (m.deeds stimulus).foldl Deed.change m.cpu.switches := by
  cases stimulus with
  | step =>
    rw [perform, deeds]
    cases hhalted : m.cpu.halted with
    | true => rw [step_halted bus hhalted]; rfl
    | false => rw [step_running bus hhalted]; simp [Deed.change]
  | interrupt opcode =>
    rw [perform, deeds]
    cases henabled : m.cpu.interruptsEnabled with
    | false => rw [interrupt_disabled bus opcode henabled]; rfl
    | true =>
      rw [interrupt_enabled bus opcode henabled]
      exact switches_execute bus _ _
  | reset => rfl

theorem switches_after (m : Machine σ) (stimuli : List Stimulus) :
    (m.after bus stimuli).cpu.switches =
      (m.history bus stimuli).foldl Deed.change m.cpu.switches := by
  induction stimuli generalizing m with
  | nil => rfl
  | cons stimulus rest ih =>
    rw [after, history, List.foldl_append, ih, switches_perform]

/-- Counts, beside what the devices make of it, the halts that they are told of. -/
def countingBus : Bus (σ × Nat) where
  input := fun port (dev, count) =>
    let (value, dev) := bus.input port dev
    (value, (dev, count))
  output := fun port value (dev, count) => (bus.output port value dev, count)
  halted := fun (dev, count) => (bus.halted dev, count + 1)

/-- The same machine, its devices with a count. -/
def counting (count : Nat) (m : Machine σ) : Machine (σ × Nat) :=
  ⟨m.cpu, m.memory, (m.devices, count)⟩

theorem execute_counting (i : Instruction) (m : Machine σ) (count : Nat) :
    (m.counting count).execute (countingBus bus) i =
      (m.execute bus i).counting (count + [Deed.executed i].count (.executed .halt)) := by
  obtain ⟨p, mem, dev⟩ := m
  cases i with
  | increment r | decrement r | moveImmediate r | arithmetic op r => cases r <;> rfl
  | move target source => cases target <;> cases source <;> rfl
  | jumpIf c | callIf c | retIf c =>
    cases hc : p.holds c <;> simp only [execute, fetchWord, counting, Processor.holds_setPC, hc] <;>
      rfl
  | _ => rfl

theorem perform_counting (m : Machine σ) (count : Nat) (stimulus : Stimulus) :
    ((m.counting count).perform (countingBus bus) stimulus).1 =
      (m.perform bus stimulus).1.counting
        (count + (m.deeds stimulus).count (.executed .halt)) := by
  cases stimulus with
  | step =>
    rw [perform, perform, deeds]
    cases hhalted : m.cpu.halted with
    | true => rw [step_halted bus hhalted, step_halted (countingBus bus) hhalted]; rfl
    | false =>
      rw [step_running bus hhalted, step_running (countingBus bus) hhalted]
      exact execute_counting bus m.next m.fetch.2 count
  | interrupt opcode =>
    rw [perform, perform, deeds]
    cases henabled : m.cpu.interruptsEnabled with
    | false =>
      rw [interrupt_disabled bus opcode henabled,
        interrupt_disabled (countingBus bus) opcode henabled]
      rfl
    | true =>
      rw [interrupt_enabled bus opcode henabled,
        interrupt_enabled (countingBus bus) opcode henabled, if_pos rfl,
        List.count_cons_of_ne (by simp)]
      exact execute_counting bus (.ofOpcode opcode)
        (m.onCpu fun p => { p with interruptsEnabled := false }) count
  | reset => rfl

theorem after_counting (m : Machine σ) (count : Nat) (stimuli : List Stimulus) :
    (m.counting count).after (countingBus bus) stimuli =
      (m.after bus stimuli).counting
        (count + (m.history bus stimuli).count (.executed .halt)) := by
  induction stimuli generalizing m count with
  | nil => rfl
  | cons stimulus rest ih =>
    rw [after, after, history, perform_counting, ih, List.count_append, Nat.add_assoc]

/-- Whatever is done to a processor that starts reset, with any memory and devices: interrupts
are enabled if the instruction that enables them is the last that had a say in this, and an
interrupt is ignored otherwise; one that is accepted disables them before its own instruction is
executed; the processor is halted if a halt has been executed since the last reset, and a step
does nothing then and executes the next instruction otherwise; and the devices are told of a halt
once for each that is executed. -/
theorem switches_follow_history (memory : Memory) (devices : σ) (stimuli : List Stimulus) :
    let start : Machine σ := ⟨.initial, memory, devices⟩
    let m := start.after bus stimuli
    let history := start.history bus stimuli
    (m.cpu.interruptsEnabled = true ↔
      (history.filter Deed.switchesInterrupts).getLast? =
        some (.executed .enableInterrupts)) ∧
    (m.cpu.interruptsEnabled = false → ∀ opcode, m.interrupt bus opcode = (m, 0)) ∧
    (m.cpu.interruptsEnabled = true → ∀ opcode, m.interrupt bus opcode =
      ((m.onCpu fun p => { p with interruptsEnabled := false }).execute bus (.ofOpcode opcode),
        (Instruction.ofOpcode opcode).cycles)) ∧
    (m.cpu.halted = true ↔
      ∃ before since, history = before ++ .executed .halt :: since ∧ .reset ∉ since) ∧
    (m.cpu.halted = true → m.step bus = (m, 0)) ∧
    (m.cpu.halted = false → m.step bus = (m.fetch.2.execute bus m.next, m.next.cycles)) ∧
    (start.counting 0).after (countingBus bus) stimuli =
      m.counting (history.count (.executed .halt)) := by
  intro start m history
  have hswitches : m.cpu.switches = history.foldl Deed.change {} :=
    switches_after bus start stimuli
  have henabled : m.cpu.interruptsEnabled = (history.foldl Deed.change {}).interruptsEnabled :=
    congrArg Switches.interruptsEnabled hswitches
  have hhalted : m.cpu.halted = (history.foldl Deed.change {}).halted :=
    congrArg Switches.halted hswitches
  refine ⟨?_, ?_, ?_, ?_, ?_, ?_, ?_⟩
  · rw [henabled, Deed.interruptsEnabled_foldl]
  · exact fun hdisabled opcode => interrupt_disabled bus opcode hdisabled
  · exact fun hset opcode => interrupt_enabled bus opcode hset
  · rw [hhalted, Deed.halted_foldl]
  · exact fun hset => step_halted bus hset
  · exact fun hrunning => step_running bus hrunning
  · simpa using after_counting bus start 0 stimuli

end Machine

end Cpm80
