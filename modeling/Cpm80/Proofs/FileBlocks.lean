import Cpm80.FileControlBlock
import Cpm80.Proofs.MemoryBlocks

/-!
# What a file control block keeps

The drive and the name of a block are its first twelve cells. Setting the place of a block
changes three of the cells after these, from which the place can be read back, and no cell
outside the block.
-/
namespace Cpm80.FileControlBlock

open Memory

/-- The number of cells of a block. -/
def length : Nat := 33

/-- The place of a block encodes record `next` of a file of `size` bytes. -/
structure Encodes (m : Memory) (fcb : UInt16) (next size : Nat) : Prop where
  place : (m.read (fcb + extentOffset)).toNat * 128 + (m.read (fcb + currentRecordOffset)).toNat =
    next
  inside : next < 32768 → (m.read (fcb + currentRecordOffset)).toNat < 128
  parked : next = 32768 →
    m.read (fcb + extentOffset) = 255 ∧ m.read (fcb + currentRecordOffset) = 128
  records : (m.read (fcb + recordCountOffset)).toNat =
    min 128 ((size + 127) / 128 - 128 * (m.read (fcb + extentOffset)).toNat)

theorem Encodes.position_eq {m : Memory} {fcb : UInt16} {next size : Nat}
    (h : Encodes m fcb next size) (hnext : next ≤ 32768) : position m fcb = next := by
  have hrecord : (m.read (fcb + currentRecordOffset)).toNat ≤ 128 := by
    rcases Nat.lt_or_eq_of_le hnext with hlt | heq
    · exact Nat.le_of_lt (h.inside hlt)
    · rw [(h.parked heq).2]
      decide
  rw [position, recordsPerExtent, Nat.min_eq_left hrecord, h.place]

theorem position_le (m : Memory) (fcb : UInt16) : position m fcb ≤ 32768 := by
  have := (m.read (fcb + extentOffset)).toNat_lt
  simp only [position, recordsPerExtent]
  omega

theorem name_congr {m n : Memory} {fcb : UInt16}
    (h : ∀ i < 12, m.read (fcb + UInt16.ofNat i) = n.read (fcb + UInt16.ofNat i)) :
    name m fcb = name n fcb := by
  have hslice : m.slice (fcb + nameOffset) 11 = n.slice (fcb + nameOffset) 11 := by
    apply slice_congr
    intro i hi
    have hoffset : fcb + nameOffset + UInt16.ofNat i = fcb + UInt16.ofNat (i + 1) :=
      add_one_add_ofNat fcb i
    rw [hoffset]
    exact h (i + 1) (by omega)
  rw [name, name, hslice]

theorem driveByte_congr {m n : Memory} {fcb : UInt16}
    (h : ∀ i < 12, m.read (fcb + UInt16.ofNat i) = n.read (fcb + UInt16.ofNat i)) :
    driveByte m fcb = driveByte n fcb := by
  have hfirst := h 0 (by omega)
  have hoffset : fcb + UInt16.ofNat 0 = fcb := UInt16.add_zero fcb
  rwa [hoffset] at hfirst

theorem position_congr {m n : Memory} {fcb : UInt16}
    (h : ∀ i < length, m.read (fcb + UInt16.ofNat i) = n.read (fcb + UInt16.ofNat i)) :
    position m fcb = position n fcb := by
  have hextent : m.read (fcb + extentOffset) = n.read (fcb + extentOffset) := h 12 (by decide)
  have hrecord : m.read (fcb + currentRecordOffset) = n.read (fcb + currentRecordOffset) :=
    h 32 (by decide)
  rw [position, position, hextent, hrecord]

theorem read_setPosition_of_ne {m : Memory} {fcb a : UInt16} {next records : Nat}
    (hextent : a ≠ fcb + extentOffset) (hrecord : a ≠ fcb + currentRecordOffset)
    (hcount : a ≠ fcb + recordCountOffset) :
    (setPosition m fcb next records).read a = m.read a := by
  rw [setPosition, read_write_of_ne _ _ hcount, read_write_of_ne _ _ hrecord,
    read_write_of_ne _ _ hextent]

/-- The drive byte and the name stay when the place is set. -/
theorem read_setPosition_front (m : Memory) (fcb : UInt16) (next records : Nat) {i : Nat}
    (hi : i < 12) :
    (setPosition m fcb next records).read (fcb + UInt16.ofNat i) =
      m.read (fcb + UInt16.ofNat i) := by
  have hne : ∀ j, 12 ≤ j → j < 65536 → fcb + UInt16.ofNat i ≠ fcb + UInt16.ofNat j := by
    intro j hj hlt heq
    rw [add_ofNat_inj fcb (by omega) hlt] at heq
    omega
  exact read_setPosition_of_ne (hne 12 (by omega) (by omega)) (hne 32 (by omega) (by omega))
    (hne 15 (by omega) (by omega))

/-- A buffer apart from the block stays when the place is set. -/
theorem slice_setPosition {m : Memory} {fcb a : UInt16} {count : Nat}
    (h : Apart fcb length a count) (next records : Nat) :
    (setPosition m fcb next records).slice a count = m.slice a count := by
  apply slice_congr
  intro i hi
  have hne : ∀ j < length, a + UInt16.ofNat i ≠ fcb + UInt16.ofNat j := h.symm i hi
  exact read_setPosition_of_ne (hne 12 (by decide)) (hne 32 (by decide)) (hne 15 (by decide))

/-- The extent and the record of a place fit the two bytes that hold them. -/
theorem split_spec {next : Nat} (hnext : next ≤ 32768) :
    (split next).1 < 256 ∧ (split next).2 ≤ 128 ∧ (split next).1 * 128 + (split next).2 = next ∧
      (next < 32768 → (split next).2 < 128) ∧
      (next = 32768 → (split next).1 = 255 ∧ (split next).2 = 128) := by
  have hmax : maxRecords = 32768 := rfl
  rw [split, hmax, recordsPerExtent]
  split
  · refine ⟨?_, ?_, ?_, ?_, ?_⟩ <;> dsimp only <;> omega
  · refine ⟨?_, ?_, ?_, ?_, ?_⟩ <;> dsimp only <;> omega

/-- What is read back from the three cells that hold the place, after it was set. -/
theorem encodes_setPosition (m : Memory) (fcb : UInt16) {next : Nat} (hnext : next ≤ 32768)
    (size : Nat) : Encodes (setPosition m fcb next (FileRecord.count size)) fcb next size := by
  have hec : fcb + extentOffset ≠ fcb + currentRecordOffset := by
    rw [Ne, UInt16.add_right_inj]
    decide
  have her : fcb + extentOffset ≠ fcb + recordCountOffset := by
    rw [Ne, UInt16.add_right_inj]
    decide
  have hcr : fcb + currentRecordOffset ≠ fcb + recordCountOffset := by
    rw [Ne, UInt16.add_right_inj]
    decide
  obtain ⟨hextentlt, hrecordle, hplace, hinside, hparked⟩ := split_spec hnext
  have hextent : (setPosition m fcb next (FileRecord.count size)).read (fcb + extentOffset) =
      UInt8.ofNat (split next).1 := by
    rw [setPosition, read_write_of_ne _ _ her, read_write_of_ne _ _ hec, read_write_self]
  have hrecord : (setPosition m fcb next (FileRecord.count size)).read
      (fcb + currentRecordOffset) = UInt8.ofNat (split next).2 := by
    rw [setPosition, read_write_of_ne _ _ hcr, read_write_self]
  have hcount : (setPosition m fcb next (FileRecord.count size)).read
      (fcb + recordCountOffset) =
      UInt8.ofNat (recordsIn (split next).1 (FileRecord.count size)) := by
    rw [setPosition, read_write_self]
  have hextentNat : (UInt8.ofNat (split next).1).toNat = (split next).1 := by
    rw [UInt8.toNat_ofNat', Nat.mod_eq_of_lt hextentlt]
  have hrecordNat : (UInt8.ofNat (split next).2).toNat = (split next).2 := by
    rw [UInt8.toNat_ofNat', Nat.mod_eq_of_lt (by omega)]
  constructor
  case place => rw [hextent, hrecord, hextentNat, hrecordNat, hplace]
  case inside => rwa [hrecord, hrecordNat]
  case parked =>
    intro hlast
    obtain ⟨he, hr⟩ := hparked hlast
    rw [hextent, hrecord, he, hr]
    decide
  case records =>
    rw [hcount, hextent, hextentNat, recordsIn, FileRecord.count, FileRecord.size,
      recordsPerExtent, UInt8.toNat_ofNat']
    omega

/-- What a block carries after it was made to name a file. -/
theorem name_write (m : Memory) (fcb : UInt16) (drive : UInt8) (file : String) :
    name (write m fcb drive file) fcb = FileName.ofPadded (FileName.padded file) := by
  rw [write, name_congr fun i hi => read_setPosition_front _ fcb 0 0 hi, name]
  have hslice := slice_place_self (m.write fcb drive) (fcb + nameOffset) (FileName.padded file)
    (by simp)
  rw [FileName.length_padded] at hslice
  rw [hslice]

theorem driveByte_write (m : Memory) (fcb : UInt16) (drive : UInt8) (file : String) :
    driveByte (write m fcb drive file) fcb = drive := by
  rw [write, driveByte_congr fun i hi => read_setPosition_front _ fcb 0 0 hi, driveByte]
  have hname : ∀ i < (FileName.padded file).length, fcb ≠ fcb + nameOffset + UInt16.ofNat i := by
    intro i hi heq
    rw [FileName.length_padded] at hi
    have hoffset : fcb + UInt16.ofNat 0 = fcb + UInt16.ofNat (i + 1) := by
      rw [← add_one_add_ofNat]
      exact (UInt16.add_zero fcb).trans heq
    rw [add_ofNat_inj fcb (by omega) (by omega)] at hoffset
    omega
  rw [read_place_of_ne _ _ _ _ hname, read_write_self]

/-- Making a block name a file changes no cell outside the block. -/
theorem read_write_named_of_ne {m : Memory} {fcb a : UInt16} {drive : UInt8}
    {name : String} (h : ∀ i < length, a ≠ fcb + UInt16.ofNat i) :
    (write m fcb drive name).read a = m.read a := by
  have hfirst : a ≠ fcb := by simpa using h 0 (by decide)
  have hname : ∀ i < (FileName.padded name).length, a ≠ fcb + nameOffset + UInt16.ofNat i := by
    intro i hi
    have hoffset : fcb + nameOffset + UInt16.ofNat i = fcb + UInt16.ofNat (i + 1) :=
      Memory.add_one_add_ofNat fcb i
    rw [FileName.length_padded] at hi
    have hinside : i + 1 < length := by
      rw [length]
      omega
    rw [hoffset]
    exact h (i + 1) hinside
  rw [write, read_setPosition_of_ne (h 12 (by decide)) (h 32 (by decide)) (h 15 (by decide)),
    Memory.read_place_of_ne _ _ _ _ hname, Memory.read_write_of_ne _ _ hfirst]

end Cpm80.FileControlBlock
