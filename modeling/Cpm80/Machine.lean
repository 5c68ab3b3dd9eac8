import Cpm80.Processor

/-!
# Executing instructions

A machine is a processor, its memory and the devices on its ports. The devices are any state
type with a `Bus` that says how they answer; everything here is stated for all of them. One
`step` fetches the opcode at the program counter and executes the instruction it names;
operand bytes are fetched by the instruction itself, also when its opcode was injected by an
interrupt rather than fetched.
-/
namespace Cpm80

/-- How devices with state `σ` answer the input, output and halt signals. -/
structure Bus (σ : Type) where
  input : UInt8 → σ → UInt8 × σ
  output : UInt8 → UInt8 → σ → σ
  halted : σ → σ

/-- No devices: every port reads zero and output is dropped. -/
def Bus.none (σ : Type) : Bus σ where
  input := fun _ s => (0, s)
  output := fun _ _ s => s
  halted := fun s => s

structure Machine (σ : Type) where
  cpu : Processor
  memory : Memory
  devices : σ

namespace Machine

variable {σ : Type}

/-- Reads the byte at the program counter and moves past it. -/
def fetch : Machine σ → UInt8 × Machine σ
  | ⟨p, mem, dev⟩ => (mem.read p.pc, ⟨{ p with pc := p.pc + 1 }, mem, dev⟩)

/-- Reads the word at the program counter and moves past it. -/
def fetchWord : Machine σ → UInt16 × Machine σ
  | ⟨p, mem, dev⟩ => (mem.readWord p.pc, ⟨{ p with pc := p.pc + 2 }, mem, dev⟩)

def pushWord (w : UInt16) : Machine σ → Machine σ
  | ⟨p, mem, dev⟩ => ⟨{ p with sp := p.sp - 2 }, mem.writeWord (p.sp - 2) w, dev⟩

def popWord : Machine σ → UInt16 × Machine σ
  | ⟨p, mem, dev⟩ => (mem.readWord p.sp, ⟨{ p with sp := p.sp + 2 }, mem, dev⟩)

def getRegister (r : Register) : Machine σ → UInt8
  | ⟨p, mem, _⟩ =>
    match r with
    | .b => p.b
    | .c => p.c
    | .d => p.d
    | .e => p.e
    | .h => p.h
    | .l => p.l
    | .m => mem.read p.hl
    | .a => p.a

def setRegister (r : Register) (v : UInt8) : Machine σ → Machine σ
  | ⟨p, mem, dev⟩ =>
    match r with
    | .b => ⟨{ p with b := v }, mem, dev⟩
    | .c => ⟨{ p with c := v }, mem, dev⟩
    | .d => ⟨{ p with d := v }, mem, dev⟩
    | .e => ⟨{ p with e := v }, mem, dev⟩
    | .h => ⟨{ p with h := v }, mem, dev⟩
    | .l => ⟨{ p with l := v }, mem, dev⟩
    | .m => ⟨p, mem.write p.hl v, dev⟩
    | .a => ⟨{ p with a := v }, mem, dev⟩

/-- Changes the processor alone. -/
def onCpu (f : Processor → Processor) : Machine σ → Machine σ
  | ⟨p, mem, dev⟩ => ⟨f p, mem, dev⟩

def jumpTo (w : UInt16) : Machine σ → Machine σ :=
  onCpu fun p => { p with pc := w }

/-- Pushes the address of the following instruction and goes to `target`. -/
def callTo (target : UInt16) (m : Machine σ) : Machine σ :=
  let back := m.cpu.pc
  (m.pushWord back).jumpTo target

def returnFrom (m : Machine σ) : Machine σ :=
  let (target, m) := m.popWord
  m.jumpTo target

/-- The effect of an instruction whose opcode has been read already. -/
def execute (bus : Bus σ) (i : Instruction) (m : Machine σ) : Machine σ :=
  match i with
  | .nop | .undefined => m
  | .loadPair pair =>
    let (w, m) := m.fetchWord
    m.onCpu fun p => p.setPair w pair
  | .storeAt pointer =>
    let ⟨p, mem, dev⟩ := m
    ⟨p, mem.write (p.pointer pointer) p.a, dev⟩
  | .loadFrom pointer =>
    let ⟨p, mem, dev⟩ := m
    ⟨{ p with a := mem.read (p.pointer pointer) }, mem, dev⟩
  | .storePairDirect =>
    let (w, ⟨p, mem, dev⟩) := m.fetchWord
    ⟨p, mem.writeWord w p.hl, dev⟩
  | .loadPairDirect =>
    let (w, ⟨p, mem, dev⟩) := m.fetchWord
    ⟨p.setHL (mem.readWord w), mem, dev⟩
  | .storeDirect =>
    let (w, ⟨p, mem, dev⟩) := m.fetchWord
    ⟨p, mem.write w p.a, dev⟩
  | .loadDirect =>
    let (w, ⟨p, mem, dev⟩) := m.fetchWord
    ⟨{ p with a := mem.read w }, mem, dev⟩
  | .incrementPair pair => m.onCpu fun p => p.setPair (p.pair pair + 1) pair
  | .decrementPair pair => m.onCpu fun p => p.setPair (p.pair pair - 1) pair
  | .addPair pair => m.onCpu fun p => p.addToHL (p.pair pair)
  | .increment r =>
    let value := m.getRegister r
    (m.onCpu fun p => (p.incremented value).2).setRegister r (value + 1)
  | .decrement r =>
    let value := m.getRegister r
    (m.onCpu fun p => (p.decremented value).2).setRegister r (value - 1)
  | .moveImmediate r =>
    let (v, m) := m.fetch
    m.setRegister r v
  | .rotateLeft => m.onCpu Processor.rotateLeft
  | .rotateRight => m.onCpu Processor.rotateRight
  | .rotateLeftThroughCarry => m.onCpu Processor.rotateLeftThroughCarry
  | .rotateRightThroughCarry => m.onCpu Processor.rotateRightThroughCarry
  | .decimalAdjust => m.onCpu Processor.decimalAdjust
  | .complement => m.onCpu fun p => { p with a := ~~~p.a }
  | .setCarry => m.onCpu fun p => p.setFlag Flag.carry true
  | .complementCarry =>
    m.onCpu fun p => { p with flags := p.flags ^^^ Flag.carry }.setFlag Flag.auxCarry false
  | .halt =>
    let ⟨p, mem, dev⟩ := m
    ⟨{ p with halted := true }, mem, bus.halted dev⟩
  | .move target source =>
    let value := m.getRegister source
    m.setRegister target value
  | .arithmetic op r =>
    let value := m.getRegister r
    m.onCpu fun p => p.arithmetic op value
  | .arithmeticImmediate op =>
    let (v, m) := m.fetch
    m.onCpu fun p => p.arithmetic op v
  | .jump =>
    let (w, m) := m.fetchWord
    m.jumpTo w
  | .jumpIf c =>
    let (w, m) := m.fetchWord
    if m.cpu.holds c then m.jumpTo w else m
  | .jumpToHL => m.onCpu fun p => { p with pc := p.hl }
  | .call =>
    let (w, m) := m.fetchWord
    m.callTo w
  | .callIf c =>
    let (w, m) := m.fetchWord
    if m.cpu.holds c then m.callTo w else m
  | .restart n => m.callTo (UInt16.ofNat (8 * n.val))
  | .ret => m.returnFrom
  | .retIf c => if m.cpu.holds c then m.returnFrom else m
  | .push pair =>
    let w := m.cpu.stackPair pair
    m.pushWord w
  | .pop pair =>
    let (w, m) := m.popWord
    m.onCpu fun p => p.setStackPair w pair
  | .exchangeStackTop =>
    let ⟨p, mem, dev⟩ := m
    let w := mem.readWord p.sp
    ⟨p.setHL w, mem.writeWord p.sp p.hl, dev⟩
  | .exchangePairs => m.onCpu fun p => (p.setDE p.hl).setHL p.de
  | .stackFromHL => m.onCpu fun p => { p with sp := p.hl }
  | .output =>
    let (port, ⟨p, mem, dev⟩) := m.fetch
    ⟨p, mem, bus.output port p.a dev⟩
  | .input =>
    let (port, ⟨p, mem, dev⟩) := m.fetch
    let (v, dev) := bus.input port dev
    ⟨{ p with a := v }, mem, dev⟩
  | .disableInterrupts => m.onCpu fun p => { p with interruptsEnabled := false }
  | .enableInterrupts => m.onCpu fun p => { p with interruptsEnabled := true }

/-- The instruction at the program counter. -/
def next (m : Machine σ) : Instruction :=
  .ofOpcode (m.memory.read m.cpu.pc)

/-- Executes one instruction and gives its cost. A halted processor stays as it is, at no
cost. -/
def step (bus : Bus σ) (m : Machine σ) : Machine σ × Nat :=
  if m.cpu.halted then (m, 0)
  else
    let i := m.next
    ((m.fetch.2).execute bus i, i.cycles)

/-- Executes an injected opcode if interrupts are enabled, which disables them first. The
cost is zero if the interrupt was ignored. -/
def interrupt (bus : Bus σ) (opcode : UInt8) (m : Machine σ) : Machine σ × Nat :=
  if m.cpu.interruptsEnabled then
    let i := Instruction.ofOpcode opcode
    ((m.onCpu fun p => { p with interruptsEnabled := false }).execute bus i, i.cycles)
  else (m, 0)

/-- Puts the processor into its initial state; memory and devices stay. -/
def reset : Machine σ → Machine σ :=
  onCpu fun _ => .initial

/-- What a run of steps amounts to. -/
structure Tally where
  instructions : Nat := 0
  cycles : Nat := 0
  deriving DecidableEq, Repr

/-- Executes up to `limit` instructions and stops early once the processor is halted; adds
to the tally `t` so far. -/
def run (bus : Bus σ) : (limit : Nat) → Machine σ → Tally → Machine σ × Tally
  | 0, m, t => (m, t)
  | limit + 1, m, t =>
    if m.cpu.halted then (m, t)
    else
      let (m, cost) := m.step bus
      m.run bus limit ⟨t.instructions + 1, t.cycles + cost⟩

end Machine

end Cpm80
