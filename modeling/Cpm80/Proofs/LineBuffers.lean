import Cpm80.Proofs.KeyboardReads
import Cpm80.Proofs.MemoryBlocks

/-!
# Lines read into a buffer

A program that reads a line names a buffer, whose first byte says how many characters it has room
for. As many characters of the line as fit are kept and shown; the rest of the line is gone with
its end. No cell is written but the one for their number and those that they are put into, also
where the buffer goes round the top of memory.
-/
namespace Cpm80

/-! ## Counted blocks -/

/-- A counted block is its length, its bytes behind it and nothing else. -/
theorem Memory.place_counted (m : Memory) (a : UInt16) {bytes : List UInt8}
    (hsize : bytes.length < 256) :
    let after := m.place a (UInt8.ofNat bytes.length :: bytes)
    (after.read a).toNat = bytes.length ∧ after.slice (a + 1) bytes.length = bytes ∧
      ∀ b, b ≠ a → (∀ i < bytes.length, b ≠ a + 1 + UInt16.ofNat i) → after.read b = m.read b := by
  intro after
  have hcount : after.read a = UInt8.ofNat bytes.length := by
    have hfits : (UInt8.ofNat bytes.length :: bytes).length ≤ 65536 := by
      rw [List.length_cons]
      omega
    simpa using read_place m a hfits (Nat.zero_lt_succ _)
  refine ⟨?_, ?_, ?_⟩
  · rw [hcount, UInt8.toNat_ofNat', Nat.mod_eq_of_lt hsize]
  · exact slice_place_self (m.write a _) (a + 1) bytes (by omega)
  · intro b hb hbehind
    have hfirst : (m.write a (UInt8.ofNat bytes.length)).read b = m.read b :=
      read_write_of_ne m _ hb
    rw [← hfirst]
    exact read_place_of_ne _ (a + 1) b bytes hbehind

/-! ## The call -/

/-- A call that does not have to wait is performed at once. What the processor gets of it is the
answer and the return. -/
theorem Computer.advance_of_ready {p : Processor} {s : Station} (hrunning : p.halted = false)
    (hpc : p.pc = entryPoint) (hready : waitsForInput p.c s.console = false) :
    let after := (SystemCall.perform p.c p.de s).1
    let next := (⟨p, s⟩ : Computer).advance
    next.2 = .executed callCost ∧ next.1.station.memory = after.memory ∧
      next.1.station.disk = after.disk ∧ next.1.station.console = after.console := by
  intro after next
  have hnext : next = ((⟨p, s⟩ : Computer).serve, .executed callCost) := by
    simp [next, advance, hrunning, hpc, hready]
  rw [hnext]
  refine ⟨rfl, ?_⟩
  simp only [serve]
  split <;> exact ⟨rfl, rfl, rfl⟩

namespace SystemCall

theorem readBuffer_eq (s : Station) (buffer : UInt16) {line rest : List UInt8} {stop : UInt8}
    (hqueued : s.console.input = line ++ stop :: rest)
    (hline : ∀ b ∈ line, Console.isLineEnd b = false) (hstop : Console.isLineEnd stop = true) :
    let kept := line.take (s.memory.read buffer).toNat
    readBuffer buffer s = ⟨s.memory.place (buffer + 1) (UInt8.ofNat kept.length :: kept), s.disk,
      ({ s.console with input := rest }.putBytes kept).endLine, s.usage⟩ := by
  obtain ⟨m, d, c, u⟩ := s
  intro kept
  simp only [readBuffer, Console.getLine_eq hqueued hline hstop, Option.getD_some]
  rfl

/-- A line that is queued with its end is read into the buffer as far as there is room: its length
comes behind the room and the characters behind that, and no other cell changes. Just these
characters are shown, with the end of a line, and the whole line is off the queue, so the next read
begins behind it. A program that makes the call goes on at once and finds this. -/
theorem line_read_stays_in_buffer (s : Station) (buffer : UInt16) {line rest : List UInt8}
    {stop : UInt8} (hqueued : s.console.input = line ++ stop :: rest)
    (hline : ∀ b ∈ line, b ≠ carriageReturn ∧ b ≠ lineFeed)
    (hstop : stop = carriageReturn ∨ stop = lineFeed) :
    let count := min line.length (s.memory.read buffer).toNat
    let after := (perform 10 buffer s).1
    (after.memory.read (buffer + 1)).toNat = count ∧
      after.memory.slice (buffer + 2) count = line.take count ∧
      (∀ a, a ≠ buffer + 1 → (∀ i < count, a ≠ buffer + 2 + UInt16.ofNat i) →
        after.memory.read a = s.memory.read a) ∧
      after.console.output.toList =
        s.console.output.toList ++ line.take count ++ [carriageReturn, lineFeed] ∧
      after.console.input = rest ∧
      (after.console.afterReturn = s.console.afterReturn ∧ after.disk = s.disk ∧
        (perform 10 buffer s).2 = Answer.success) ∧
      ∀ p : Processor, p.halted = false → p.pc = Computer.entryPoint → p.c = 10 → p.de = buffer →
        let next := (⟨p, s⟩ : Computer).advance
        next.2 = .executed Computer.callCost ∧ next.1.station.memory = after.memory ∧
          next.1.station.disk = after.disk ∧ next.1.station.console = after.console := by
  intro count after
  have hinside : ∀ b ∈ line, Console.isLineEnd b = false := by
    simpa [Console.isLineEnd] using hline
  have hend : Console.isLineEnd stop = true := by
    simpa [Console.isLineEnd] using hstop
  have hcount : (line.take (s.memory.read buffer).toNat).length = count := by
    rw [List.length_take, Nat.min_comm]
  have hkept : line.take (s.memory.read buffer).toNat = line.take count :=
    List.take_eq_take_iff.mpr (by omega)
  have hafter : after = ⟨s.memory.place (buffer + 1) (UInt8.ofNat count :: line.take count),
      s.disk, ({ s.console with input := rest }.putBytes (line.take count)).endLine, s.usage⟩ := by
    rw [← hkept, ← hcount]
    exact readBuffer_eq s buffer hqueued hinside hend
  have hlength : (line.take count).length = count := hkept ▸ hcount
  have hroom := (s.memory.read buffer).toNat_lt
  have hsize : (line.take count).length < 256 := by omega
  obtain ⟨hnumber, hbytes, hothers⟩ := s.memory.place_counted (buffer + 1) hsize
  have hbehind : buffer + 1 + 1 = buffer + 2 := UInt16.add_assoc buffer 1 1
  rw [hlength] at hnumber hbytes hothers
  rw [hbehind] at hbytes hothers
  refine ⟨?_, ?_, ?_, ?_, congrArg (·.console.input) hafter,
    ⟨congrArg (·.console.afterReturn) hafter, congrArg (·.disk) hafter, rfl⟩, ?_⟩
  · rw [hafter]
    exact hnumber
  · rw [hafter]
    exact hbytes
  · rw [hafter]
    exact hothers
  · rw [hafter]
    simp [Console.endLine, Console.putBytes]
  · rintro p hrunning hpc hc rfl
    have hready : Computer.waitsForInput p.c s.console = false := by
      rw [Bool.eq_false_iff, Ne, Computer.waitsForInput_iff, hc, hqueued]
      rintro (⟨hother, -⟩ | ⟨-, hnone⟩)
      · cases hother
      · have hstop' := hnone stop (hqueued ▸ List.mem_append_right _ List.mem_cons_self)
        exact hstop.elim hstop'.1 hstop'.2
    have hnext := Computer.advance_of_ready hrunning hpc hready
    rwa [hc] at hnext

/-- A buffer with room for two characters in front of the top of memory, and a line of three. -/
def aroundTop : Station where
  memory := .ofFn fun a => if a = 0xFFFE then 2 else 0xAA
  disk := .ofDrives []
  console := { input := [0x41, 0x42, 0x43, carriageReturn, 0x44] }
  usage := .none

theorem line_read_stays_in_buffer_aroundTop :
    let after := (perform 10 0xFFFE aroundTop).1
    (aroundTop.memory.read 0xFFFE).toNat = 2 ∧ (after.memory.read 0xFFFF).toNat = 2 ∧
      after.memory.slice 0x0000 2 = [0x41, 0x42] ∧ after.memory.read 0x0002 = 0xAA ∧
      after.console.output.toList = [0x41, 0x42, carriageReturn, lineFeed] ∧
      after.console.input = [0x44] := by
  intro after
  have hroom : (aroundTop.memory.read 0xFFFE).toNat = 2 := by
    simp only [aroundTop, Memory.read_ofFn]
    rfl
  have hother : aroundTop.memory.read 0x0002 = 0xAA := by
    simp only [aroundTop, Memory.read_ofFn]
    rfl
  have hqueued : aroundTop.console.input = [0x41, 0x42, 0x43] ++ carriageReturn :: [0x44] := rfl
  have hline : ∀ b ∈ [0x41, 0x42, 0x43], b ≠ carriageReturn ∧ b ≠ lineFeed := by
    simp [carriageReturn, lineFeed]
  obtain ⟨hnumber, hbytes, hkept, hshown, hrest, -⟩ :=
    line_read_stays_in_buffer aroundTop 0xFFFE hqueued hline (.inl rfl)
  rw [hroom] at hnumber hbytes hkept hshown
  exact ⟨hroom, hnumber, hbytes, (hkept 0x0002 (by decide) (by decide)).trans hother, hshown, hrest⟩

end SystemCall

end Cpm80
