import Cpm80.Text.Numeral
import Cpm80.Word

/-!
# The address space

Memory is 64K bytes, one for each word used as an address, so reading and writing a single
cell never fails and addresses wrap from the top of memory to zero. Blocks come in two
kinds: `load` and `dump` refuse a block that runs past the top, while `place` and `slice`
follow the wrap. Everything about a memory is said through `read`: two memories with the
same reads are equal.
-/
namespace Cpm80

structure Memory where
  cells : Vector UInt8 65536

/-- A block of `length` bytes at `address` runs past the top of memory. -/
structure OutOfBounds where
  address : UInt16
  length : Nat
  deriving DecidableEq, Repr

def OutOfBounds.message (e : OutOfBounds) : String :=
  "memory access out of bounds: address $" ++ Hex.word e.address ++ ", length " ++
    e.length.repr

namespace Memory

def blank : Memory := ⟨Vector.replicate 65536 0⟩

/-- The memory whose cell at each address holds the given value. -/
def ofFn (f : UInt16 → UInt8) : Memory :=
  ⟨Vector.ofFn fun i => f (UInt16.ofNat i.val)⟩

def read (m : Memory) (a : UInt16) : UInt8 :=
  have := a.toNat_lt
  m.cells[a.toNat]

def write (m : Memory) (a : UInt16) (v : UInt8) : Memory :=
  ⟨m.cells.set a.toNat v a.toNat_lt⟩

@[ext] theorem ext {m n : Memory} (h : ∀ a, m.read a = n.read a) : m = n := by
  cases m with
  | mk p =>
    cases n with
    | mk q =>
      congr 1
      apply Vector.ext
      intro i hi
      have ha : (UInt16.ofNat i).toNat = i := by
        rw [UInt16.toNat_ofNat']
        exact Nat.mod_eq_of_lt hi
      have := h (UInt16.ofNat i)
      simpa only [read, ha] using this

@[simp] theorem read_blank (a : UInt16) : blank.read a = 0 := by
  simp [blank, read]

@[simp] theorem read_ofFn (f : UInt16 → UInt8) (a : UInt16) : (ofFn f).read a = f a := by
  simp [ofFn, read]

theorem read_write (m : Memory) (a b : UInt16) (v : UInt8) :
    (m.write a v).read b = if b = a then v else m.read b := by
  simp only [read, write, Vector.getElem_set, UInt16.toNat_inj]
  split <;> simp_all [eq_comm]

@[simp] theorem read_write_self (m : Memory) (a : UInt16) (v : UInt8) :
    (m.write a v).read a = v := by
  simp [read_write]

/-- The word whose low byte is at `a` and whose high byte is at the address after it. -/
def readWord (m : Memory) (a : UInt16) : UInt16 :=
  word (m.read (a + 1)) (m.read a)

def writeWord (m : Memory) (a w : UInt16) : Memory :=
  (m.write a (lowByte w)).write (a + 1) (highByte w)

/-- Writes consecutive bytes from `a` on, following the wrap at the top. -/
def place (m : Memory) (a : UInt16) : List UInt8 → Memory
  | [] => m
  | b :: bs => (m.write a b).place (a + 1) bs

/-- The `length` bytes from `a` on, following the wrap at the top. -/
def slice (m : Memory) (a : UInt16) (length : Nat) : List UInt8 :=
  (List.range length).map fun i => m.read (a + UInt16.ofNat i)

@[simp] theorem length_slice (m : Memory) (a : UInt16) (n : Nat) :
    (m.slice a n).length = n := by
  simp [slice]

/-- Whether a block lies below the top of memory as a whole. -/
def Fits (a : UInt16) (length : Nat) : Prop :=
  a.toNat + length ≤ 65536

instance (a : UInt16) (length : Nat) : Decidable (Fits a length) :=
  inferInstanceAs (Decidable (_ ≤ _))

/-- Writes a block, all of it or nothing. -/
def load (m : Memory) (a : UInt16) (bytes : List UInt8) : Except OutOfBounds Memory :=
  if Fits a bytes.length then .ok (m.place a bytes) else .error ⟨a, bytes.length⟩

def dump (m : Memory) (a : UInt16) (length : Nat) : Except OutOfBounds (List UInt8) :=
  if Fits a length then .ok (m.slice a length) else .error ⟨a, length⟩

/-- The cells in which `after` differs from `before`, with their new values, in ascending
order of address. -/
def changes (before after : Memory) : List (UInt16 × UInt8) :=
  (List.range 65536).filterMap fun i =>
    let a := UInt16.ofNat i
    if after.read a = before.read a then none else some (a, after.read a)

end Memory

end Cpm80
