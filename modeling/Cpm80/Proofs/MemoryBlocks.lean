import Cpm80.Memory

/-!
# Blocks of memory

What `place` writes is what `slice` reads back at the same address, and nothing outside the
block changes. Addresses wrap, so two blocks are apart when no cell of the one is a cell of the
other; an order between their addresses would say too little.
-/
namespace Cpm80.Memory

/-- The `count` cells from `a` on and the `length` cells from `b` on have none in common. -/
def Apart (a : UInt16) (count : Nat) (b : UInt16) (length : Nat) : Prop :=
  ∀ i < count, ∀ j < length, a + UInt16.ofNat i ≠ b + UInt16.ofNat j

instance (a : UInt16) (count : Nat) (b : UInt16) (length : Nat) :
    Decidable (Apart a count b length) :=
  inferInstanceAs (Decidable (∀ i < count, ∀ j < length, _))

/-- Blocks that follow each other without wrapping are apart. -/
theorem Apart.of_le {a b : UInt16} {count length : Nat} (hab : a.toNat + count ≤ b.toNat)
    (hb : b.toNat + length ≤ 65536) : Apart a count b length := by
  intro i hi j hj heq
  have hsum := congrArg UInt16.toNat heq
  simp only [UInt16.toNat_add, UInt16.toNat_ofNat'] at hsum
  omega

theorem Apart.symm {a b : UInt16} {count length : Nat} (h : Apart a count b length) :
    Apart b length a count := by
  intro j hj i hi heq
  exact h i hi j hj heq.symm

/-- Offsets below the size of memory name different cells. -/
theorem add_ofNat_inj (a : UInt16) {i j : Nat} (hi : i < 65536) (hj : j < 65536) :
    a + UInt16.ofNat i = a + UInt16.ofNat j ↔ i = j := by
  rw [UInt16.add_right_inj, ← UInt16.toNat_inj, UInt16.toNat_ofNat', UInt16.toNat_ofNat']
  omega

theorem ne_add_one (a : UInt16) : a ≠ a + 1 := by
  intro heq
  have hsum := congrArg UInt16.toNat heq
  rw [UInt16.toNat_add, UInt16.toNat_one] at hsum
  omega

theorem add_one_add_ofNat (a : UInt16) (i : Nat) :
    a + 1 + UInt16.ofNat i = a + UInt16.ofNat (i + 1) := by
  rw [UInt16.add_assoc, UInt16.add_comm 1, UInt16.ofNat_add]
  rfl

/-- An address is not reached by a step from below that ends before it. -/
theorem ne_add_ofNat_of_lt {a b : UInt16} {i : Nat} (h : b.toNat + i < a.toNat) :
    a ≠ b + UInt16.ofNat i := by
  intro heq
  have hsum := congrArg UInt16.toNat heq
  rw [UInt16.toNat_add, UInt16.toNat_ofNat'] at hsum
  have := a.toNat_lt
  omega

theorem read_write_of_ne (m : Memory) {a b : UInt16} (v : UInt8) (h : b ≠ a) :
    (m.write a v).read b = m.read b := by
  rw [read_write, if_neg h]

/-- A cell outside the block stays. -/
theorem read_place_of_ne (m : Memory) (a b : UInt16) (bytes : List UInt8)
    (h : ∀ i < bytes.length, b ≠ a + UInt16.ofNat i) :
    (m.place a bytes).read b = m.read b := by
  induction bytes generalizing m a with
  | nil => rfl
  | cons v rest ih =>
    have hfirst : b ≠ a := by simpa using h 0 (by simp)
    have hrest : ∀ i < rest.length, b ≠ a + 1 + UInt16.ofNat i := by
      intro i hi
      rw [add_one_add_ofNat]
      exact h (i + 1) (by simpa using hi)
    rw [place, ih _ _ hrest, read_write_of_ne m v hfirst]

/-- Each byte of the block lies at its offset, as long as the block does not overrun itself. -/
theorem read_place (m : Memory) (a : UInt16) {bytes : List UInt8} (hsize : bytes.length ≤ 65536)
    {i : Nat} (hi : i < bytes.length) :
    (m.place a bytes).read (a + UInt16.ofNat i) = bytes[i] := by
  induction bytes generalizing m a i with
  | nil => simp at hi
  | cons v rest ih =>
    rw [List.length_cons] at hsize hi
    cases i with
    | zero =>
      -- the rest would have to go all the way round to come back to the first cell
      have hrest : ∀ j < rest.length, a + UInt16.ofNat 0 ≠ a + 1 + UInt16.ofNat j := by
        intro j hj heq
        rw [add_one_add_ofNat, add_ofNat_inj a (by omega) (by omega)] at heq
        omega
      rw [place, read_place_of_ne _ _ _ _ hrest]
      simp
    | succ i =>
      rw [place, ← add_one_add_ofNat, ih _ _ (by omega) (by omega)]
      rfl

/-- Two memories that agree on a block have the same slice there. -/
theorem slice_congr {m n : Memory} {a : UInt16} {length : Nat}
    (h : ∀ i < length, m.read (a + UInt16.ofNat i) = n.read (a + UInt16.ofNat i)) :
    m.slice a length = n.slice a length := by
  apply List.map_congr_left
  intro i hi
  exact h i (List.mem_range.mp hi)

/-- Each cell of a block is read off its slice. -/
theorem read_eq_of_slice_eq {m n : Memory} {a : UInt16} {length i : Nat}
    (h : m.slice a length = n.slice a length) (hi : i < length) :
    m.read (a + UInt16.ofNat i) = n.read (a + UInt16.ofNat i) :=
  List.map_inj_left.mp h i (List.mem_range.mpr hi)

@[simp] theorem slice_place_self (m : Memory) (a : UInt16) (bytes : List UInt8)
    (hsize : bytes.length ≤ 65536) : (m.place a bytes).slice a bytes.length = bytes := by
  apply List.ext_getElem
  · simp
  · intro i hi hlt
    simp only [slice, List.getElem_map, List.getElem_range]
    exact read_place m a hsize hlt

/-- A cell of a block that is apart from the placed one stays. -/
theorem Apart.read_place {m : Memory} {a b : UInt16} {count : Nat} {bytes : List UInt8}
    (h : Apart b count a bytes.length) {i : Nat} (hi : i < count) :
    (m.place a bytes).read (b + UInt16.ofNat i) = m.read (b + UInt16.ofNat i) :=
  read_place_of_ne m a _ bytes fun j hj => h i hi j hj

end Cpm80.Memory
