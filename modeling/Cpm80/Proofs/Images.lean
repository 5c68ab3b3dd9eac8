import Cpm80.Proofs.TwoPasses
import Cpm80.Proofs.MemoryBlocks
import Cpm80.Session

/-!
# Images fit into memory

The counter of the emitting pass never goes past the end of memory. If no string is too long for
it, it ends at the origin plus the length of the image in an assembly without faults, so the image
lies in memory as a whole, and a session can always load it. A string that is too long for the
counter does not fit into memory either.
-/
namespace Cpm80

namespace Assembler

theorem dataSize_le_dataSizes {operand : List Char} {operands : List (List Char)}
    (h : operand ∈ operands) : dataSize operand ≤ dataSizes operands := by
  induction operands with
  | nil => cases h
  | cons first rest ih =>
    rw [dataSizes]
    rcases List.mem_cons.mp h with rfl | h
    · exact Nat.le_add_right _ _
    · exact Nat.le_add_left_of_le (ih h)

/-- All the data of a statement is emitted. -/
theorem Emission.size_of_bytes {s s' : Emission} {symbols : Symbols} {st : Statement}
    (hop : st.operation = some .bytes) (h : statement symbols s st = (s', none)) :
    s'.image.size = s.image.size + dataSizes st.operands := by
  rw [statement, hop] at h
  dsimp only at h
  rw [operation] at h
  split at h
  case isTrue hempty => cases h
  case isFalse hsome =>
    obtain ⟨codes, hcodes, rfl⟩ := bytes_eq h
    rw [appended, size_append, length_flatten_dataCodes hcodes]

end Assembler

open Assembler

namespace Assembly

variable {text : List Char} {origin : UInt16}

/-- The image of an assembly without faults ends in memory. -/
theorem image_fits (h : (ofText text origin).isOk) (hcountable : IsCountable text) :
    (ofText text origin).origin.toNat + (ofText text origin).image.size ≤ 65536 := by
  obtain ⟨-, horigin, himage, -, -⟩ := assembles_of_isOk h
  have hanchored := Emission.anchored_stateAfter (Emission.anchored_start origin)
    (ofText text origin).symbols hcountable
  rw [horigin, himage, emission_eq_stateAfter, ← hanchored.address_eq]
  exact hanchored.le_end

/-- What is emitted for a statement is in the image. -/
theorem isCountable_of_fits (h : (ofText text origin).isOk)
    (hfits : (ofText text origin).image.size ≤ 65536) : IsCountable text := by
  intro numbered hnumbered hop operand hoperand
  obtain ⟨front, rest, hsource⟩ := List.append_of_mem hnumbered
  have hreached := (assembles_of_isOk h).reached hsource
  have hdata := Emission.size_of_bytes hop (Prod.ext rfl hreached.codes.1)
  obtain ⟨-, back, hback⟩ := Emission.run_counts hreached.codes.2
  have himage := congrArg Array.size (hreached.image_eq.trans hback)
  rw [Emission.size_append, hdata] at himage
  have hsize := dataSize_le_dataSizes hoperand
  rw [maxMove]
  omega

/-- An image fits exactly if no string of its source is too long for the counter. -/
theorem image_fits_iff (h : (ofText text origin).isOk) :
    (ofText text origin).origin.toNat + (ofText text origin).image.size ≤ 65536 ↔
      IsCountable text :=
  ⟨fun hfits => isCountable_of_fits h (Nat.le_trans (Nat.le_add_left _ _) hfits), image_fits h⟩

end Assembly

namespace Session

/-- Loading a block that fits puts it into memory and changes nothing else. -/
theorem load_of_fits {s : Session} {a : UInt16} {bytes : List UInt8}
    (h : Memory.Fits a bytes.length) :
    s.load a bytes = (s.onStation fun st => st.onMemory fun m => m.place a bytes, none) := by
  obtain ⟨⟨p, m, d, c, u⟩, n, i, w, o, mode⟩ := s
  simp only [load, Memory.load, if_pos h]
  rfl

theorem load_of_not_fits {a : UInt16} {bytes : List UInt8} (h : ¬Memory.Fits a bytes.length)
    (s : Session) : s.load a bytes = (s, some ⟨a, bytes.length⟩) := by
  obtain ⟨⟨p, m, d, c, u⟩, n, i, w, o, mode⟩ := s
  simp only [load, Memory.load, if_neg h]

/-- A faultless source goes into memory as a whole. -/
theorem assemble_of_isOk {text : List Char} {origin : UInt16}
    (h : (Assembly.ofText text origin).isOk) (hcountable : Assembly.IsCountable text)
    (s : Session) :
    let a := Assembly.ofText text origin
    s.assemble text origin =
      ((s.onStation fun st => st.onUsage fun u => u.addAssembly true).onStation fun st =>
        st.onMemory fun m => m.place a.origin a.image.toList, .ok a) := by
  intro a
  have hfits : Memory.Fits a.origin a.image.toList.length := Assembly.image_fits h hcountable
  simp only [assemble, h, if_true]
  rw [load_of_fits hfits]

/-- With a string that is too long for the counter a faultless source does not go into memory. -/
theorem assemble_of_not_isCountable {text : List Char} {origin : UInt16}
    (h : (Assembly.ofText text origin).isOk) (hlong : ¬Assembly.IsCountable text) (s : Session) :
    let a := Assembly.ofText text origin
    (s.assemble text origin).2 = .error ⟨a.origin, a.image.size⟩ := by
  intro a
  have hload : ¬Memory.Fits a.origin a.image.toList.length :=
    mt (Assembly.image_fits_iff h).mp hlong
  simp only [assemble, h, if_true]
  rw [load_of_not_fits hload, Array.length_toList]

end Session

end Cpm80
