import Cpm80.Proofs.Flags
import Cpm80.Proofs.InterruptGating

/-!
# The flags byte

Five of the eight bits of the flags byte are flags. No instruction sets one of the other three:
flags are set one at a time, and what comes off the stack is cut to the five. A pushed flags byte
has a sixth bit, which is cut away again when it is popped, and a popped one always has the
auxiliary carry. So a processor that pushes its accumulator and flags gets both back, but for that
one flag, as long as the two cells on the stack stay as they are.
-/
namespace Cpm80

namespace Flag

/-- No bit is set but those of the five flags. -/
def Only (f : UInt8) : Prop :=
  f &&& ~~~(sign ||| zero ||| auxCarry ||| parity ||| carry) = 0

instance (f : UInt8) : Decidable (Only f) :=
  inferInstanceAs (Decidable (_ = _))

variable {f g : UInt8}

theorem only_iff : Only f ↔ f &&& all = f := by
  have hall : ~~~(sign ||| zero ||| auxCarry ||| parity ||| carry) = ~~~all := by decide
  rw [Only, hall]
  constructor
  · intro h
    have hkept : ~~~~~~all &&& f = f := not_and_of_apart (by rw [UInt8.and_comm, h])
    rwa [UInt8.not_not, UInt8.and_comm] at hkept
  · intro h
    rw [← h, UInt8.and_assoc, UInt8.and_not_self, UInt8.and_zero]

theorem xor_and_distrib (f g mask : UInt8) :
    (f ^^^ g) &&& mask = (f &&& mask) ^^^ (g &&& mask) := by
  apply UInt8.toBitVec_inj.mp
  ext i
  simp [Bool.and_xor_distrib_right]

theorem only_zero : Only 0 := by decide

theorem Only.or (hf : Only f) (hg : Only g) : Only (f ||| g) := by
  rw [only_iff, or_and_distrib, only_iff.mp hf, only_iff.mp hg]

theorem Only.xor (hf : Only f) (hg : Only g) : Only (f ^^^ g) := by
  rw [only_iff, xor_and_distrib, only_iff.mp hf, only_iff.mp hg]

theorem Only.and (hf : Only f) (g : UInt8) : Only (f &&& g) := by
  rw [only_iff, UInt8.and_assoc, UInt8.and_comm g, ← UInt8.and_assoc, only_iff.mp hf]

/-- What comes off the stack holds flags only, the auxiliary carry among them. -/
theorem only_popped (f : UInt8) : Only ((f &&& all) ||| auxCarry) := by
  have hcut : Only (all &&& f) := Only.and (by decide) f
  rw [UInt8.and_comm]
  exact hcut.or (by decide)

/-- The bit that is added to a pushed byte is cut away when it is popped. -/
theorem Only.pushed_and_all (h : Only f) : (f ||| pushed) &&& all = f := by
  have hcut : pushed &&& all = 0 := by decide
  rw [or_and_distrib, only_iff.mp h, hcut, UInt8.or_zero]

end Flag

namespace Processor

open Cpm80.Flag

variable {p : Processor} (h : Only p.flags) (v : UInt8) (carryIn : Bool)

include h

theorem only_setFlag (mask : UInt8) (hmask : Only mask) (value : Bool) :
    Only (p.setFlag mask value).flags := by
  cases value with
  | true => exact h.or hmask
  | false => exact h.and _

theorem only_setResult : Only (p.setResult v).flags := by
  have hzero := only_setFlag h zero (by decide) (v = 0)
  have hsign := only_setFlag hzero sign (by decide) (v &&& 0x80 != 0)
  exact only_setFlag hsign _ (by decide) _

/-- Both carries are set before the flags that tell the kind of the result. -/
theorem only_setCarries (aux carryOut : Bool) :
    Only (((p.setFlag Flag.auxCarry aux).setFlag Flag.carry carryOut).setResult v).flags := by
  have haux := only_setFlag h Flag.auxCarry (by decide) aux
  exact only_setResult (only_setFlag haux _ (by decide) _) v

theorem only_add : Only (p.add v carryIn).flags :=
  only_setCarries h _ _ _

theorem only_compare : Only (p.compare v carryIn).flags :=
  only_setCarries h _ _ _

theorem only_logical (aux : Bool) : Only (p.logical v aux).flags := by
  have hcarry := only_setFlag h Flag.carry (by decide) false
  exact only_setResult (only_setFlag hcarry _ (by decide) _) v

theorem only_arithmetic (op : Arithmetic) : Only (p.arithmetic op v).flags := by
  cases op with
  | add | addCarry => exact only_add h v _
  | sub | subBorrow | compare => exact only_compare h v _
  | and | xor | or => exact only_logical h _ _

theorem only_incremented : Only (p.incremented v).2.flags :=
  only_setResult (only_setFlag h _ (by decide) _) _

theorem only_decremented : Only (p.decremented v).2.flags :=
  only_setResult (only_setFlag h _ (by decide) _) _

theorem only_decimalAdjust : Only p.decimalAdjust.flags := by
  simp only [decimalAdjust]
  split
  · exact only_setFlag (only_setFlag (only_add h _ _) _ (by decide) _) _ (by decide) _
  · exact only_setFlag (only_add h _ _) _ (by decide) _

theorem only_setStackPair (w : UInt16) (pair : StackPair) :
    Only (p.setStackPair w pair).flags := by
  cases pair with
  | bc | de | hl => exact h
  | psw => exact only_popped _

end Processor

namespace Machine

open Cpm80.Flag

variable {σ : Type} (bus : Bus σ) {m n : Machine σ} {stimulus : Stimulus} {i : Instruction}

@[simp] theorem flags_setRegister (m : Machine σ) (r : Register) (v : UInt8) :
    (m.setRegister r v).cpu.flags = m.cpu.flags := by
  cases r <;> rfl

theorem only_execute (h : Only m.cpu.flags) (i : Instruction) :
    Only (m.execute bus i).cpu.flags := by
  obtain ⟨p, mem, dev⟩ := m
  have hp : Only p.flags := h
  have hcarry : Only Flag.carry := by decide
  cases i with
  | loadPair pair | incrementPair pair | decrementPair pair => cases pair <;> exact hp
  | increment r =>
    simp only [execute, onCpu, flags_setRegister]
    exact Processor.only_incremented hp _
  | decrement r =>
    simp only [execute, onCpu, flags_setRegister]
    exact Processor.only_decremented hp _
  | moveImmediate | move =>
    simp only [execute, fetch, flags_setRegister]
    exact hp
  | arithmetic op r =>
    simp only [execute, onCpu]
    exact Processor.only_arithmetic hp _ op
  | arithmeticImmediate op =>
    simp only [execute, fetch, onCpu]
    exact Processor.only_arithmetic (p := { p with pc := p.pc + 1 }) hp _ op
  | decimalAdjust =>
    simp only [execute, onCpu]
    exact Processor.only_decimalAdjust hp
  | addPair | rotateLeft | rotateRight | rotateLeftThroughCarry | rotateRightThroughCarry
  | setCarry =>
    -- each of these sets the carry and then moves values only
    exact Processor.only_setFlag hp _ hcarry _
  | complementCarry => exact (hp.xor hcarry).and _
  | pop pair =>
    simp only [execute, popWord, onCpu]
    exact Processor.only_setStackPair (p := { p with sp := p.sp + 2 }) hp _ pair
  | jumpIf c | callIf c | retIf c =>
    simp only [execute]
    split <;> exact hp
  | _ => exact hp

theorem only_perform (h : Only m.cpu.flags) (stimulus : Stimulus) :
    Only (m.perform bus stimulus).1.cpu.flags := by
  cases stimulus with
  | step =>
    simp only [perform, step]
    split
    · exact h
    · exact only_execute bus (m := m.fetch.2) h _
  | interrupt opcode =>
    simp only [perform, interrupt]
    split
    · exact only_execute bus (m := m.onCpu fun p => { p with interruptsEnabled := false }) h _
    · exact h
  | reset => exact only_zero

theorem only_after (h : Only m.cpu.flags) (stimuli : List Stimulus) :
    Only (m.after bus stimuli).cpu.flags := by
  induction stimuli generalizing m with
  | nil => exact h
  | cons stimulus rest ih => exact ih (only_perform bus h stimulus)

/-! ## Through the stack -/

/-- The stimulus makes the processor execute an instruction, from memory or injected. -/
def Executes (m : Machine σ) (stimulus : Stimulus) (i : Instruction) : Prop :=
  .executed i ∈ m.deeds stimulus

/-- Where an instruction comes from shows in the program counter and the interrupt switch only. -/
theorem Executes.perform_eq (h : m.Executes stimulus i) : ∃ pc enabled,
    (m.perform bus stimulus).1 =
      Machine.execute bus i
        ⟨{ m.cpu with pc := pc, interruptsEnabled := enabled }, m.memory, m.devices⟩ := by
  cases stimulus with
  | step =>
    rw [Executes, deeds] at h
    split at h
    · cases h
    · next hrunning =>
      obtain rfl : i = m.next := by simpa using h
      rw [Bool.not_eq_true] at hrunning
      exact ⟨m.cpu.pc + 1, m.cpu.interruptsEnabled, by rw [perform, step_running bus hrunning]; rfl⟩
  | interrupt opcode =>
    rw [Executes, deeds] at h
    split at h
    · next henabled =>
      obtain rfl : i = .ofOpcode opcode := by simpa using h
      exact ⟨m.cpu.pc, false, by rw [perform, interrupt_enabled bus opcode henabled]; rfl⟩
    · cases h
  | reset => simp [Executes, deeds] at h

/-- The accumulator is on top of the flags, which have one bit more than in the processor. -/
theorem perform_push (h : m.Executes stimulus (.push .psw)) :
    let pushed := (m.perform bus stimulus).1
    pushed.cpu.sp = m.cpu.sp - 2 ∧ pushed.memory.read (m.cpu.sp - 1) = m.cpu.a ∧
      pushed.memory.read (m.cpu.sp - 2) = m.cpu.flags ||| Flag.pushed := by
  intro pushed
  obtain ⟨pc, enabled, hperform⟩ := h.perform_eq bus
  have hsp : m.cpu.sp - 2 + 1 = m.cpu.sp - 1 := by grind
  have hmemory : pushed.memory =
      m.memory.writeWord (m.cpu.sp - 2) (word m.cpu.a (m.cpu.flags ||| Flag.pushed)) :=
    congrArg memory hperform
  refine ⟨congrArg (fun m => m.cpu.sp) hperform, ?_, ?_⟩
  · rw [hmemory, Memory.writeWord, hsp, Memory.read_write_self, highByte_word]
  · rw [hmemory, Memory.writeWord, Memory.read_write_of_ne _ _ (Memory.ne_add_one _),
      Memory.read_write_self, lowByte_word]

/-- Whatever is on the stack, the flags that come from there are well formed. -/
theorem perform_pop (h : m.Executes stimulus (.pop .psw)) :
    let popped := (m.perform bus stimulus).1
    popped.cpu.sp = m.cpu.sp + 2 ∧ popped.cpu.a = m.memory.read (m.cpu.sp + 1) ∧
      popped.cpu.flags = (m.memory.read m.cpu.sp &&& Flag.all) ||| Flag.auxCarry := by
  intro popped
  obtain ⟨pc, enabled, hperform⟩ := h.perform_eq bus
  have ha : popped.cpu.a = highByte (m.memory.readWord m.cpu.sp) :=
    congrArg (fun m => m.cpu.a) hperform
  have hflags : popped.cpu.flags =
      (lowByte (m.memory.readWord m.cpu.sp) &&& Flag.all) ||| Flag.auxCarry :=
    congrArg (fun m => m.cpu.flags) hperform
  refine ⟨congrArg (fun m => m.cpu.sp) hperform, ?_, ?_⟩
  · rw [ha, Memory.readWord, highByte_word]
  · rw [hflags, Memory.readWord, lowByte_word]

/-- What was pushed is popped again, wherever the stack pointer is and whatever happens in
between, if only the pointer comes back to the two cells and they are as they were left. -/
theorem perform_pop_of_pushed {later : Stimulus} (hflags : Only m.cpu.flags)
    (hpush : m.Executes stimulus (.push .psw)) (hpop : n.Executes later (.pop .psw))
    (hsp : n.cpu.sp = m.cpu.sp - 2)
    (hcells : ∀ a ∈ [m.cpu.sp - 2, m.cpu.sp - 1],
      n.memory.read a = (m.perform bus stimulus).1.memory.read a) :
    let popped := (n.perform bus later).1
    popped.cpu.a = m.cpu.a ∧ popped.cpu.sp = m.cpu.sp ∧
      popped.cpu.flags = m.cpu.flags ||| Flag.auxCarry := by
  intro popped
  obtain ⟨-, hhigh, hlow⟩ := perform_push bus hpush
  obtain ⟨hback, ha, hf⟩ := perform_pop bus hpop
  have htop : n.cpu.sp + 1 = m.cpu.sp - 1 := by
    rw [hsp]
    grind
  have hrestored : n.cpu.sp + 2 = m.cpu.sp := by
    rw [hsp]
    grind
  rw [← hcells _ (by simp)] at hhigh hlow
  refine ⟨?_, hback.trans hrestored, ?_⟩
  · rw [ha, htop, hhigh]
  · rw [hf, hsp, hlow, hflags.pushed_and_all]

/-- From a reset on, no bit of the flags byte is ever set but those of the five flags. A push of
the accumulator and the flags stores the two, with bit 1 of the flags set. A pop restores the
accumulator, the stack pointer and the flags of a push before it, with the auxiliary carry set, if
the two cells on the stack have not changed; and whatever a pop finds there, it leaves flags
only. -/
theorem flags_survive_stack :
    (∀ (memory : Memory) (devices : σ) (stimuli : List Stimulus),
      Only ((⟨.initial, memory, devices⟩ : Machine σ).after bus stimuli).cpu.flags) ∧
    (∀ (m : Machine σ) (stimulus : Stimulus), m.Executes stimulus (.push .psw) →
      let pushed := (m.perform bus stimulus).1
      pushed.cpu.sp = m.cpu.sp - 2 ∧ pushed.memory.read (m.cpu.sp - 1) = m.cpu.a ∧
        pushed.memory.read (m.cpu.sp - 2) = m.cpu.flags ||| 0x02) ∧
    (∀ (m n : Machine σ) (stimulus later : Stimulus), Only m.cpu.flags →
      m.Executes stimulus (.push .psw) → n.Executes later (.pop .psw) →
      n.cpu.sp = m.cpu.sp - 2 →
      (∀ a ∈ [m.cpu.sp - 2, m.cpu.sp - 1],
        n.memory.read a = (m.perform bus stimulus).1.memory.read a) →
      let popped := (n.perform bus later).1
      popped.cpu.a = m.cpu.a ∧ popped.cpu.sp = m.cpu.sp ∧
        popped.cpu.flags = m.cpu.flags ||| Flag.auxCarry) ∧
    (∀ (n : Machine σ) (later : Stimulus), n.Executes later (.pop .psw) →
      Only (n.perform bus later).1.cpu.flags) := by
  refine ⟨?_, ?_, ?_, ?_⟩
  · intro memory devices stimuli
    exact only_after bus only_zero stimuli
  · intro m stimulus hpush
    exact perform_push bus hpush
  · intro m n stimulus later hflags hpush hpop hsp hcells
    exact perform_pop_of_pushed bus hflags hpush hpop hsp hcells
  · intro n later hpop
    rw [(perform_pop bus hpop).2.2]
    exact only_popped _

/-- A machine at a push and a pop, with the stack about to go round the bottom of memory. -/
def pushAroundBottom : Machine Unit where
  cpu := { a := 0x12, flags := Flag.zero ||| Flag.carry, sp := 0x0001, pc := 0x0100 }
  memory := (Memory.blank.write 0x0100 0xF5).write 0x0101 0xF1
  devices := ()

theorem flags_survive_stack_aroundBottom :
    let pushed := (pushAroundBottom.perform (.none Unit) .step).1
    let popped := (pushed.perform (.none Unit) .step).1
    Only pushAroundBottom.cpu.flags ∧
      pushAroundBottom.Executes .step (.push .psw) ∧
      pushed.Executes .step (.pop .psw) ∧
      pushed.memory.read 0x0000 = 0x12 ∧ pushed.memory.read 0xFFFF = 0x43 ∧
      popped.cpu.a = 0x12 ∧ popped.cpu.sp = 0x0001 ∧ popped.cpu.flags = 0x51 := by
  intro pushed popped
  have hflags : Only pushAroundBottom.cpu.flags := by decide
  have hpush : pushAroundBottom.Executes .step (.push .psw) := by
    unfold Executes
    decide +kernel
  have hpop : pushed.Executes .step (.pop .psw) := by
    unfold Executes
    decide +kernel
  obtain ⟨-, hstored, hrestored, -⟩ := flags_survive_stack (.none Unit)
  obtain ⟨hsp, hhigh, hlow⟩ := hstored pushAroundBottom .step hpush
  obtain ⟨ha, hback, hf⟩ :=
    hrestored pushAroundBottom pushed .step .step hflags hpush hpop hsp fun a _ => rfl
  exact ⟨hflags, hpush, hpop, hhigh, hlow, ha, hback, hf⟩

end Machine

end Cpm80
