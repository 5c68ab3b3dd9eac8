import Cpm80.Machine
import Cpm80.SystemCall

/-!
# The computer

A processor in a station. All ports lead to the console. A program reaches the system by a
call of the entry point, where the function number is expected in register C and the
parameter in DE. Such a call is one action, like an instruction, unless it has to wait for
the keyboard: then nothing happens, and the computer stays where it is until the call can be
completed.
-/
namespace Cpm80

/-- The console on all ports. A byte that is not there reads as zero. -/
def consoleBus : Bus Console where
  input := fun _ c =>
    match c.getByte with
    | (b, c) => (b.getD 0, c)
  output := fun _ v c => c.putByte v
  halted := fun c => c

structure Computer where
  cpu : Processor
  station : Station

namespace Computer

/-- Programs that return or jump here come to a halt. -/
def warmBoot : UInt16 := 0x0000

/-- Where programs call the system. -/
def entryPoint : UInt16 := 0x0005

/-- The end of the memory for programs, which their stack grows down from. -/
def programTop : UInt16 := 0xFE00

/-- Puts a halt at the warm boot and a return at the entry point, and tells programs the top
of their memory. -/
def installLowMemory (m : Memory) : Memory :=
  ((m.write warmBoot 0x76).write entryPoint 0xC9).writeWord (entryPoint + 1) programTop

def ofDrives (drives : List Drive) : Computer :=
  ⟨.initial, (Station.ofDrives drives).onMemory installLowMemory⟩

/-- Clears the processor, the memory and the keyboard and goes back to the first drive. Files
and what the screen shows stay. -/
def reset : Computer → Computer
  | ⟨_, _, d, c, u⟩ => ⟨.initial, installLowMemory .blank, d.reset, c.clearInput, u⟩

/-- Prepares for a program: a fresh processor that starts at `entry` and returns to the warm
boot. -/
def start (entry : UInt16) : Computer → Computer
  | ⟨_, m, d, c, u⟩ =>
    let (⟨p, m, _⟩ : Machine Unit) :=
      (⟨{ Processor.initial with sp := programTop }, m, ()⟩ : Machine Unit).pushWord warmBoot
    ⟨{ p with pc := entry }, m, d, c, u⟩

/-- Whether a system call cannot be completed before something is typed. -/
def waitsForInput (function : UInt8) (c : Console) : Bool :=
  match SystemCall.ofFunction? function with
  | some .consoleInput => !c.hasInput
  | some .readLine => !c.hasLine
  | _ => false

/-- Puts the answer of a call into HL, and its halves into A and B as well. -/
def setAnswer (answer : UInt16) (p : Processor) : Processor :=
  { p.setHL answer with a := lowByte answer, b := highByte answer }

/-- What a system call costs. -/
def callCost : Nat := Instruction.ret.cycles

/-- Performs the system call that the registers ask for and returns from it; a system reset
goes to the warm boot instead. -/
def serve : Computer → Computer
  | ⟨p, s⟩ =>
    let function := p.c
    let (s, answer) := SystemCall.perform function p.de s
    let p := setAnswer answer p
    let ⟨m, d, c, u⟩ := s.onUsage fun u => u.addSystemCall function
    if SystemCall.ofFunction? function = some .systemReset then
      ⟨{ p with pc := warmBoot }, m, d, c, u⟩
    else
      let target := m.readWord p.sp
      ⟨{ p with sp := p.sp + 2, pc := target }, m, d, c, u⟩

/-- Executes one instruction. -/
def executeInstruction : Computer → Computer × Nat
  | ⟨p, m, d, c, u⟩ =>
    match (⟨p, m, c⟩ : Machine Console).step consoleBus with
    | (⟨p, m, c⟩, cost) => (⟨p, m, d, c, u⟩, cost)

/-- What came of an attempt to go on. -/
inductive Progress
  | executed (cost : Nat)
  | halted
  | waiting
  deriving DecidableEq, Repr

/-- One instruction or one system call. -/
def advance (c : Computer) : Computer × Progress :=
  if c.cpu.halted then (c, .halted)
  else if c.cpu.pc = entryPoint then
    if waitsForInput c.cpu.c c.station.console then (c, .waiting)
    else (c.serve, .executed callCost)
  else
    match c.executeInstruction with
    | (c, cost) => (c, .executed cost)

theorem cost_executeInstruction {c : Computer} (h : ¬c.cpu.halted = true) :
    4 ≤ c.executeInstruction.2 := by
  have : c.executeInstruction.2 = (Instruction.ofOpcode
      (c.station.memory.read c.cpu.pc)).cycles := by
    simp [executeInstruction, Machine.step, Machine.next, h]
  exact this ▸ Instruction.four_le_cycles _

theorem cost_pos {c d : Computer} {cost : Nat} (h : c.advance = (d, .executed cost)) :
    0 < cost := by
  unfold advance at h
  split at h
  · simp at h
  · next hh =>
    have := cost_executeInstruction hh
    grind [callCost, Instruction.cycles]

/-- Goes on until `budget` cycles are used up, the processor halts or a system call waits,
and adds what was done to the tally `t`. The last action may exceed the budget. Tells in the
end whether a call waits. -/
def run (budget : Nat) (c : Computer) (t : Machine.Tally) : Computer × Machine.Tally × Bool :=
  if _hb : budget = 0 then (c, t, false)
  else
    match h : c.advance with
    | (c, .executed cost) =>
      have := cost_pos h
      run (budget - cost) c ⟨t.instructions + 1, t.cycles + cost⟩
    | (c, .halted) => (c, t, false)
    | (c, .waiting) => (c, t, true)
termination_by budget

end Computer

end Cpm80
