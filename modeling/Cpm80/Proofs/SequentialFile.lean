import Cpm80.FileContent

/-!
# A file in sequence

The machine that a program sees behind the calls that open, read and write a file in sequence:
the bytes of the file, the number of the next record and the transfer buffer. It knows nothing
of memory, of control blocks or of drives. Record `n` of a file is made of its bytes from
`128 * n` on, so the two operations on records are said byte by byte; the concrete ones, which
cut a file into three pieces, are the same.
-/
namespace Cpm80

structure SequentialFile where
  bytes : List UInt8
  next : Nat
  buffer : Vector UInt8 128
  next_le : next ≤ 32768

/-- The calls on an open file. -/
inductive FileCall
  | openFile
  | readNext
  | writeNext
  deriving DecidableEq, Repr

/-- The function number that a program passes. -/
def FileCall.function : FileCall → UInt8
  | openFile => 15
  | readNext => 20
  | writeNext => 21

namespace SequentialFile

/-- Record `n`, with the end mark in place of bytes past the end. -/
def recordAt (bytes : List UInt8) (n : Nat) : Vector UInt8 128 :=
  Vector.ofFn fun i => bytes.getD (128 * n + i) 0x1A

/-- The bytes with record `n` replaced, after as many zeros as it takes to reach it. -/
def withRecord (bytes : List UInt8) (n : Nat) (record : Vector UInt8 128) : List UInt8 :=
  (List.range (max bytes.length (128 * (n + 1)))).map fun i =>
    if h : 128 * n ≤ i ∧ i < 128 * (n + 1) then record[i - 128 * n] else bytes.getD i 0

/-- Performs a call; the answer is zero unless nothing was done. -/
def perform (f : SequentialFile) : FileCall → SequentialFile × UInt16
  | .openFile => ({ f with next := 0, next_le := by omega }, 0)
  | .readNext =>
    if h : f.next = 32768 ∨ f.bytes.length ≤ 128 * f.next then (f, 1)
    else
      ({ f with
          buffer := recordAt f.bytes f.next
          next := f.next + 1
          next_le := by have := f.next_le; omega }, 0)
  | .writeNext =>
    if h : f.next = 32768 then (f, 2)
    else
      ({ f with
          bytes := withRecord f.bytes f.next f.buffer
          next := f.next + 1
          next_le := by have := f.next_le; omega }, 0)

/-- The program puts bytes of its own into the buffer. -/
def fill (f : SequentialFile) (record : Vector UInt8 128) : SequentialFile :=
  { f with buffer := record }

end SequentialFile

namespace FileRecord

open SequentialFile

theorem get_eq_recordAt (content : Array UInt8) (n : Nat) :
    get content n = (recordAt content.toList n).toList := by
  apply List.ext_getElem
  · simp only [get, size, Array.length_toList, Array.size_extract, List.length_append,
      List.length_replicate, Vector.length_toList]
    omega
  · intro i hi hlt
    have hlt : i < 128 := by simpa using hlt
    simp only [get, size, endMark, recordAt, List.getElem_append, List.getElem_replicate,
      Array.getElem_toList, Array.getElem_extract, Array.length_toList, Array.size_extract,
      Vector.getElem_toList, Vector.getElem_ofFn, List.getD_eq_getElem?_getD,
      Array.getElem?_toList]
    split
    case isTrue hin =>
      rw [Array.getElem?_eq_getElem (by omega), Option.getD_some]
      simp only [Nat.mul_comm n 128]
    case isFalse hout => rw [Array.getElem?_eq_none (by omega), Option.getD_none]

/-- Filling up with zeros to a length gives the bytes of the file where it has some. -/
theorem getElem?_filled (bytes : List UInt8) (length i : Nat) :
    (bytes ++ List.replicate (length - bytes.length) 0)[i]? =
      if i < max bytes.length length then some (bytes.getD i 0) else none := by
  rw [List.getD_eq_getElem?_getD, List.getElem?_append]
  by_cases hi : i < bytes.length
  · rw [if_pos hi, if_pos (by omega), List.getElem?_eq_getElem hi, Option.getD_some]
  · rw [if_neg hi, List.getElem?_replicate, List.getElem?_eq_none (by omega)]
    have : i - bytes.length < length - bytes.length ↔ i < max bytes.length length := by omega
    simp only [this, Option.getD_none]

/-- Putting bytes over a stretch inside a list changes that stretch and nothing else. -/
theorem getElem?_overwritten {bytes record : List UInt8} {start : Nat}
    (h : start + record.length ≤ bytes.length) (i : Nat) :
    (bytes.take start ++ (record ++ bytes.drop (start + record.length)))[i]? =
      if start ≤ i ∧ i < start + record.length then record[i - start]? else bytes[i]? := by
  have hfront : (bytes.take start).length = start := by
    rw [List.length_take]
    omega
  rcases Nat.lt_or_ge i start with hi | hi
  · rw [List.getElem?_append_left (by omega), if_neg (by omega), List.getElem?_take_of_lt hi]
  · rw [List.getElem?_append_right (by omega), hfront]
    by_cases hlt : i < start + record.length
    · rw [List.getElem?_append_left (by omega), if_pos ⟨hi, hlt⟩]
    · rw [List.getElem?_append_right (by omega), if_neg (by omega), List.getElem?_drop]
      congr 1
      omega

theorem toList_set (content : Array UInt8) (n : Nat) (record : List UInt8) :
    (set content n record).toList =
      let filled := content.toList ++ List.replicate (n * size + size - content.toList.length) 0
      filled.take (n * size) ++ (record ++ filled.drop (n * size + size)) := by
  have hparts : ∀ filled : Array UInt8,
      (filled.extract 0 (n * size) ++ record.toArray ++
        filled.extract (n * size + size) filled.size).toList =
        filled.toList.take (n * size) ++ (record ++ filled.toList.drop (n * size + size)) := by
    intro filled
    simp [List.take_of_length_le]
  rw [set, hparts, Array.toList_append, Array.toList_replicate, Array.length_toList]

theorem set_eq_withRecord (content : Array UInt8) (n : Nat) (record : Vector UInt8 128) :
    (set content n record.toList).toList = withRecord content.toList n record := by
  have hend : n * size + size = 128 * (n + 1) := by simp only [size]; omega
  have hstart : n * size = 128 * n := by simp only [size]; omega
  have hstop : 128 * n + record.toList.length = 128 * (n + 1) := by
    rw [Vector.length_toList]
    omega
  apply List.ext_getElem?
  intro i
  have hfits : 128 * n + record.toList.length ≤ (content.toList ++
      List.replicate (128 * (n + 1) - content.toList.length) (0 : UInt8)).length := by
    rw [List.length_append, List.length_replicate]
    omega
  have hover := getElem?_overwritten hfits i
  rw [hstop, getElem?_filled] at hover
  rw [toList_set, hend, hstart, hover, withRecord, List.getElem?_map]
  by_cases hi : i < max content.toList.length (128 * (n + 1))
  · rw [List.getElem?_range hi, Option.map_some, if_pos hi]
    by_cases hin : 128 * n ≤ i ∧ i < 128 * (n + 1)
    · rw [if_pos hin, dif_pos hin, Vector.getElem?_toList, Vector.getElem?_eq_getElem]
    · rw [if_neg hin, dif_neg hin]
  · rw [if_neg (by omega), if_neg hi, List.getElem?_eq_none (by simpa using hi),
      Option.map_none]

end FileRecord

end Cpm80
