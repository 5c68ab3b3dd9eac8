import Cpm80.Proofs.Runs
import Cpm80.Proofs.TypedInput

/-!
# Calls that read from the keyboard

Two system calls read from the keyboard, one a byte and the other a line, and only these can have
to wait: the one as long as nothing is queued, the other as long as no line in the queue has its
end. A line that is typed with its end satisfies both.
-/
namespace Cpm80

namespace Console

variable {c : Console}

/-- The queue holds no end of a line. -/
def NoLineEnd (c : Console) : Prop :=
  ∀ b ∈ c.input, b ≠ carriageReturn ∧ b ≠ lineFeed

theorem hasInput_eq_false_iff : c.hasInput = false ↔ c.input = [] := by
  simp [hasInput]

theorem hasLine_eq_false_iff : c.hasLine = false ↔ c.NoLineEnd := by
  simp [hasLine, NoLineEnd, isLineEnd]

/-- The end of a line is queued however it is typed. -/
theorem hasLine_type_carriageReturn (c : Console) : (c.type [carriageReturn]).hasLine = true := by
  simp [hasLine, foldedFrom, isLineEnd, carriageReturn, lineFeed]

theorem hasInput_of_hasLine (h : c.hasLine = true) : c.hasInput = true := by
  cases hinput : c.hasInput with
  | true => rfl
  | false =>
    rw [hasInput_eq_false_iff] at hinput
    simp [hasLine, hinput] at h

end Console

namespace Computer

variable {c : Computer}

theorem waitsForInput_iff {function : UInt8} {con : Console} :
    waitsForInput function con = true ↔
      function = 1 ∧ con.input = [] ∨ function = 10 ∧ con.NoLineEnd := by
  have hbyteCall : SystemCall.ofFunction? function = some .consoleInput ↔ function = 1 :=
    SystemCall.ofFunction?_eq_some_iff
  have hlineCall : SystemCall.ofFunction? function = some .readLine ↔ function = 10 :=
    SystemCall.ofFunction?_eq_some_iff
  rw [← hbyteCall, ← hlineCall, ← Console.hasInput_eq_false_iff, ← Console.hasLine_eq_false_iff,
    waitsForInput]
  split
  case h_1 hcall => simp [hcall]
  case h_2 hcall => simp [hcall]
  case h_3 hbyte hline =>
    constructor
    · intro h
      cases h
    · rintro (⟨hcall, -⟩ | ⟨hcall, -⟩)
      · exact absurd hcall hbyte
      · exact absurd hcall hline

/-- The processor stands at a call that reads from the keyboard. -/
structure AtRead (c : Computer) : Prop where
  running : c.cpu.halted = false
  atEntry : c.cpu.pc = entryPoint
  reads : c.cpu.c = 1 ∨ c.cpu.c = 10

/-- It takes only the processor to stand there. -/
theorem AtRead.of_cpu_eq {d : Computer} (h : c.AtRead) (hcpu : d.cpu = c.cpu) : d.AtRead := by
  obtain ⟨hrunning, hpc, hreads⟩ := h
  rw [← hcpu] at hrunning hpc hreads
  exact ⟨hrunning, hpc, hreads⟩

/-- The processor stands at a call that reads a byte where none is queued, or a line where no
line has its end. -/
structure Starved (c : Computer) : Prop where
  running : c.cpu.halted = false
  atEntry : c.cpu.pc = entryPoint
  lacks : c.cpu.c = 1 ∧ c.station.console.input = [] ∨
    c.cpu.c = 10 ∧ c.station.console.NoLineEnd

theorem Starved.atRead (h : c.Starved) : c.AtRead :=
  ⟨h.running, h.atEntry, h.lacks.imp And.left And.left⟩

/-- A computer waits exactly at a read that cannot be satisfied. -/
theorem advance_eq_waiting_iff : c.advance = (c, .waiting) ↔ c.Starved := by
  constructor
  · intro h
    obtain ⟨hrunning, hpc, hwaits⟩ := waits_of_advance_waiting h
    exact ⟨hrunning, hpc, waitsForInput_iff.mp hwaits⟩
  · intro h
    simp [advance, h.running, h.atEntry, waitsForInput_iff.mpr h.lacks]

/-- At any other read the next action is the call. -/
theorem AtRead.advance_eq (h : c.AtRead) (hfed : ¬c.Starved) :
    c.advance = (c.serve, .executed callCost) := by
  have hready : waitsForInput c.cpu.c c.station.console = false := by
    rw [Bool.eq_false_iff, Ne, waitsForInput_iff]
    exact fun hlacks => hfed ⟨h.running, h.atEntry, hlacks⟩
  simp [advance, h.running, h.atEntry, hready]

end Computer

end Cpm80
