import Cpm80.Memory
import Cpm80.Instruction

/-!
# The processor's registers

Eight byte registers, the flags, two word registers and two switches. This module names the
flags, gives the register pairs as words, and computes what the arithmetic instructions do
to the accumulator and the flags. It knows nothing of memory; instructions that use memory
are executed by the machine.
-/
namespace Cpm80

namespace Flag

def carry : UInt8 := 0x01
def parity : UInt8 := 0x04
def auxCarry : UInt8 := 0x10
def zero : UInt8 := 0x40
def sign : UInt8 := 0x80

/-- Always set in a pushed flags byte, and never a flag of the processor. -/
def pushed : UInt8 := 0x02

/-- The five flags together. -/
def all : UInt8 := 0xD5

end Flag

structure Processor where
  a : UInt8 := 0
  b : UInt8 := 0
  c : UInt8 := 0
  d : UInt8 := 0
  e : UInt8 := 0
  h : UInt8 := 0
  l : UInt8 := 0
  flags : UInt8 := 0
  sp : UInt16 := 0
  pc : UInt16 := 0
  halted : Bool := false
  interruptsEnabled : Bool := false
  deriving DecidableEq, Repr

namespace Processor

/-- The state after a reset: all registers zero, running, interrupts disabled. -/
def initial : Processor := {}

def bc (p : Processor) : UInt16 := word p.b p.c
def de (p : Processor) : UInt16 := word p.d p.e
def hl (p : Processor) : UInt16 := word p.h p.l

def setBC (p : Processor) (w : UInt16) : Processor :=
  { p with b := highByte w, c := lowByte w }

def setDE (p : Processor) (w : UInt16) : Processor :=
  { p with d := highByte w, e := lowByte w }

def setHL (p : Processor) (w : UInt16) : Processor :=
  { p with h := highByte w, l := lowByte w }

@[simp] theorem bc_setBC (p : Processor) (w : UInt16) : (p.setBC w).bc = w := by
  simp [bc, setBC]

@[simp] theorem de_setDE (p : Processor) (w : UInt16) : (p.setDE w).de = w := by
  simp [de, setDE]

@[simp] theorem hl_setHL (p : Processor) (w : UInt16) : (p.setHL w).hl = w := by
  simp [hl, setHL]

def pair (p : Processor) : Pair → UInt16
  | .bc => p.bc
  | .de => p.de
  | .hl => p.hl
  | .sp => p.sp

def setPair (p : Processor) (w : UInt16) : Pair → Processor
  | .bc => p.setBC w
  | .de => p.setDE w
  | .hl => p.setHL w
  | .sp => { p with sp := w }

def pointer (p : Processor) : Pointer → UInt16
  | .bc => p.bc
  | .de => p.de

/-- The word that a push of the pair stores. A pushed flags byte always has bit 1 set. -/
def stackPair (p : Processor) : StackPair → UInt16
  | .bc => p.bc
  | .de => p.de
  | .hl => p.hl
  | .psw => word p.a (p.flags ||| Flag.pushed)

/-- What a pop of the pair does with the word taken from the stack. Popped flags keep only
the five flag bits, and the auxiliary carry always comes back set. -/
def setStackPair (p : Processor) (w : UInt16) : StackPair → Processor
  | .bc => p.setBC w
  | .de => p.setDE w
  | .hl => p.setHL w
  | .psw => { p with a := highByte w, flags := (lowByte w &&& Flag.all) ||| Flag.auxCarry }

/-- Whether any of the bits of `mask` is set in the flags. -/
def flag (p : Processor) (mask : UInt8) : Bool :=
  p.flags &&& mask != 0

def setFlag (p : Processor) (mask : UInt8) (value : Bool) : Processor :=
  { p with flags := if value then p.flags ||| mask else p.flags &&& ~~~mask }

def holds (p : Processor) : Condition → Bool
  | .notZero => !p.flag Flag.zero
  | .zero => p.flag Flag.zero
  | .noCarry => !p.flag Flag.carry
  | .carry => p.flag Flag.carry
  | .parityOdd => !p.flag Flag.parity
  | .parityEven => p.flag Flag.parity
  | .plus => !p.flag Flag.sign
  | .minus => p.flag Flag.sign

/-- Whether a byte has an even number of bits set. -/
def evenParity (v : UInt8) : Bool :=
  let v := v ^^^ (v >>> 4)
  let v := v ^^^ (v >>> 2)
  let v := v ^^^ (v >>> 1)
  v &&& 1 = 0

/-- The flags that tell what kind of value a result is. -/
def setResult (p : Processor) (v : UInt8) : Processor :=
  ((p.setFlag Flag.zero (v = 0)).setFlag Flag.sign (v &&& 0x80 != 0)).setFlag
    Flag.parity (evenParity v)

/-- Adds `v` and a carry to the accumulator. The auxiliary carry is the carry out of the
low four bits. -/
def add (p : Processor) (v : UInt8) (carryIn : Bool) : Processor :=
  let total := p.a.toNat + v.toNat + carryIn.toNat
  let half := p.a.toNat % 16 + v.toNat % 16 + carryIn.toNat
  let result := UInt8.ofNat total
  let p := (p.setFlag Flag.auxCarry (15 < half)).setFlag Flag.carry (255 < total)
  { p.setResult result with a := result }

/-- The flags after subtracting `v` and a borrow from the accumulator, which itself keeps
its value. The carry flags are borrows. -/
def compare (p : Processor) (v : UInt8) (borrowIn : Bool) : Processor :=
  let subtrahend := v.toNat + borrowIn.toNat
  let p' := (p.setFlag Flag.auxCarry (p.a.toNat % 16 < v.toNat % 16 + borrowIn.toNat)).setFlag
    Flag.carry (p.a.toNat < subtrahend)
  p'.setResult (p.a - UInt8.ofNat subtrahend)

def sub (p : Processor) (v : UInt8) (borrowIn : Bool) : Processor :=
  { p.compare v borrowIn with a := p.a - UInt8.ofNat (v.toNat + borrowIn.toNat) }

/-- The common part of the bitwise operations, which clear the carry. -/
def logical (p : Processor) (result : UInt8) (auxCarry : Bool) : Processor :=
  let p := (p.setFlag Flag.carry false).setFlag Flag.auxCarry auxCarry
  { p.setResult result with a := result }

def arithmetic (p : Processor) (op : Arithmetic) (v : UInt8) : Processor :=
  match op with
  | .add => p.add v false
  | .addCarry => p.add v (p.flag Flag.carry)
  | .sub => p.sub v false
  | .subBorrow => p.sub v (p.flag Flag.carry)
  | .and => p.logical (p.a &&& v) true
  | .xor => p.logical (p.a ^^^ v) false
  | .or => p.logical (p.a ||| v) false
  | .compare => p.compare v false

/-- The value after an increment and the flags it leaves; the carry is untouched. -/
def incremented (p : Processor) (v : UInt8) : UInt8 × Processor :=
  (v + 1, (p.setFlag Flag.auxCarry (v &&& 0x0F = 0x0F)).setResult (v + 1))

/-- The value after a decrement and the flags it leaves; the carry is untouched. -/
def decremented (p : Processor) (v : UInt8) : UInt8 × Processor :=
  (v - 1, (p.setFlag Flag.auxCarry true).setResult (v - 1))

/-- Adds a word to HL; only the carry flag changes. -/
def addToHL (p : Processor) (w : UInt16) : Processor :=
  let total := p.hl.toNat + w.toNat
  (p.setFlag Flag.carry (65535 < total)).setHL (UInt16.ofNat total)

/-- Turns the sum of two packed decimal bytes into a packed decimal byte with a carry. -/
def decimalAdjust (p : Processor) : Processor :=
  let low := p.a &&& 0x0F
  let high := p.a >>> 4
  let carry := p.flag Flag.carry || high > 9 || (high ≥ 9 && low > 9)
  let lowCorrection : UInt8 := if low > 9 || p.flag Flag.auxCarry then 0x06 else 0
  let highCorrection : UInt8 := if carry then 0x60 else 0
  let sum := (p.add (lowCorrection ||| highCorrection) false).setFlag Flag.auxCarry (low > 9)
  if carry then sum.setFlag Flag.carry true else sum

def rotateLeft (p : Processor) : Processor :=
  let out := p.a &&& 0x80 != 0
  { p.setFlag Flag.carry out with a := (p.a <<< 1) ||| (p.a >>> 7) }

def rotateRight (p : Processor) : Processor :=
  let out := p.a &&& 0x01 != 0
  { p.setFlag Flag.carry out with a := (p.a >>> 1) ||| (p.a <<< 7) }

def rotateLeftThroughCarry (p : Processor) : Processor :=
  let carryIn : UInt8 := if p.flag Flag.carry then 0x01 else 0
  let out := p.a &&& 0x80 != 0
  { p.setFlag Flag.carry out with a := (p.a <<< 1) ||| carryIn }

def rotateRightThroughCarry (p : Processor) : Processor :=
  let carryIn : UInt8 := if p.flag Flag.carry then 0x80 else 0
  let out := p.a &&& 0x01 != 0
  { p.setFlag Flag.carry out with a := (p.a >>> 1) ||| carryIn }

/-- One line with the registers and the flags that are set. -/
def summary (p : Processor) : String :=
  let mark (mask : UInt8) (name : String) : String := if p.flag mask then name else "-"
  "A=" ++ Hex.byte p.a ++ " BC=" ++ Hex.word p.bc ++ " DE=" ++ Hex.word p.de ++
    " HL=" ++ Hex.word p.hl ++ " SP=" ++ Hex.word p.sp ++ " PC=" ++ Hex.word p.pc ++
    " [" ++ mark Flag.sign "S" ++ mark Flag.zero "Z" ++ mark Flag.auxCarry "A" ++
    mark Flag.parity "P" ++ mark Flag.carry "C" ++ "]"

/-- The registers as named decimal fields. -/
def detail (p : Processor) : String :=
  let field (name : String) (value : Nat) : String := name ++ ": " ++ value.repr
  let switch (name : String) (value : Bool) : String :=
    name ++ ": " ++ (if value then "true" else "false")
  "Intel8080 \x7b " ++ ", ".intercalate
    [field "a" p.a.toNat, field "bc" p.bc.toNat, field "de" p.de.toNat, field "hl" p.hl.toNat,
      field "flags" p.flags.toNat, field "sp" p.sp.toNat, field "pc" p.pc.toNat,
      switch "halted" p.halted, switch "interrupts_enabled" p.interruptsEnabled] ++ " \x7d"

end Processor

end Cpm80
