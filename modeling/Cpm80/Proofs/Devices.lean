import Cpm80.Machine

/-!
# What the devices have to do with an instruction

Only `IN` looks at the devices: every other instruction does the same to the processor and to
memory whatever they are, and an instruction commutes with each change of the devices that
their answers to output and to a halt commute with.
-/
namespace Cpm80

/-- What the processor sends to the devices passes by the change `f`. -/
structure Bus.Passes {σ : Type} (bus : Bus σ) (f : σ → σ) : Prop where
  output : ∀ port v s, bus.output port v (f s) = f (bus.output port v s)
  halted : ∀ s, bus.halted (f s) = f (bus.halted s)

namespace Machine

variable {σ : Type}

/-- Changes the devices alone. -/
def onDevices (f : σ → σ) : Machine σ → Machine σ
  | ⟨p, mem, dev⟩ => ⟨p, mem, f dev⟩

theorem setRegister_onDevices (f : σ → σ) (r : Register) (v : UInt8) (m : Machine σ) :
    (m.onDevices f).setRegister r v = (m.setRegister r v).onDevices f := by
  cases r <;> rfl

theorem execute_onDevices {bus : Bus σ} {f : σ → σ} (h : bus.Passes f) {i : Instruction}
    (hi : i ≠ .input) (m : Machine σ) :
    (m.onDevices f).execute bus i = (m.execute bus i).onDevices f := by
  obtain ⟨p, mem, dev⟩ := m
  cases i with
  | input => exact absurd rfl hi
  | output => simp [execute, onDevices, fetch, h.output]
  | halt => simp [execute, onDevices, h.halted]
  | moveImmediate r => exact setRegister_onDevices f r _ ⟨{ p with pc := p.pc + 1 }, mem, dev⟩
  | move target source => exact setRegister_onDevices f target _ ⟨p, mem, dev⟩
  | increment r | decrement r => exact setRegister_onDevices f r _ ⟨_, mem, dev⟩
  | jumpIf c | callIf c | retIf c =>
    simp only [execute, apply_ite (onDevices f)]
    rfl
  | _ => rfl

theorem step_onDevices {bus : Bus σ} {f : σ → σ} (h : bus.Passes f) {m : Machine σ}
    (hi : ¬m.cpu.halted = true → m.next ≠ .input) :
    (m.onDevices f).step bus = ((m.step bus).1.onDevices f, (m.step bus).2) := by
  by_cases hh : m.cpu.halted = true
  · have hf : (m.onDevices f).cpu.halted = true := hh
    simp [step, hh, hf]
  · have hf : ¬(m.onDevices f).cpu.halted = true := hh
    simp only [step, if_neg hh, if_neg hf]
    exact congrArg (·, m.next.cycles) (execute_onDevices h (hi hh) m.fetch.2)

end Machine

end Cpm80
