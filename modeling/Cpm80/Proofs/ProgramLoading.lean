import Cpm80.Proofs.CommandEffects
import Cpm80.Proofs.CommandFrames
import Cpm80.Proofs.ProgramFiles
import Cpm80.Proofs.ProgramStarts

/-!
# What starting a program writes

A program that is started is put into memory as a whole, and its arguments into six places below
it. These blocks have no cell in common, so that each of them is read back as it was written, and
no cell is written but theirs. Nothing else that a command line does writes to memory: neither
another command, nor a program that is not there, nor one that is too long for the memory above the
place where programs start.
-/
namespace Cpm80

/-! ## Blocks side by side -/

namespace Memory

/-- Bytes for the cells from an address on. -/
structure Block where
  address : UInt16
  bytes : List UInt8

namespace Block

/-- The number of the first cell after the block, which is the size of memory for a block that
ends with the last cell. -/
def stop (b : Block) : Nat :=
  b.address.toNat + b.bytes.length

/-- The cell is one of the block. -/
def Covers (b : Block) (a : UInt16) : Prop :=
  b.address.toNat ≤ a.toNat ∧ a.toNat < b.stop

instance (b : Block) (a : UInt16) : Decidable (b.Covers a) :=
  inferInstanceAs (Decidable (_ ∧ _))

/-- One of the blocks ends before the other begins. -/
def Beside (b c : Block) : Prop :=
  b.stop ≤ c.address.toNat ∨ c.stop ≤ b.address.toNat

theorem covers_add_ofNat {b : Block} (hfits : b.stop ≤ 65536) {i : Nat} (hi : i < b.bytes.length) :
    b.Covers (b.address + UInt16.ofNat i) := by
  rw [stop] at hfits
  rw [Covers, stop, UInt16.toNat_add, UInt16.toNat_ofNat']
  omega

theorem Beside.not_covers {b c : Block} (h : b.Beside c) {a : UInt16} (hb : b.Covers a) :
    ¬c.Covers a := by
  rw [Beside] at h
  rw [Covers] at hb ⊢
  omega

end Block

/-- Writes blocks one after another. -/
def placeAll (m : Memory) : List Block → Memory
  | [] => m
  | b :: rest => (m.place b.address b.bytes).placeAll rest

/-- The blocks lie in a memory that is otherwise the one before. -/
structure LaidOut (blocks : List Block) (before after : Memory) : Prop where
  held : ∀ b ∈ blocks, after.slice b.address b.bytes.length = b.bytes
  kept : ∀ a, (∀ b ∈ blocks, ¬b.Covers a) → after.read a = before.read a

theorem read_placeAll_of_not_covers (m : Memory) {blocks : List Block}
    (hfit : ∀ b ∈ blocks, b.stop ≤ 65536) {a : UInt16} (ha : ∀ b ∈ blocks, ¬b.Covers a) :
    (m.placeAll blocks).read a = m.read a := by
  induction blocks generalizing m with
  | nil => rfl
  | cons b rest ih =>
    obtain ⟨hfirst, hrest⟩ := List.forall_mem_cons.mp ha
    obtain ⟨hfirstFits, hrestFit⟩ := List.forall_mem_cons.mp hfit
    rw [placeAll, ih _ hrestFit hrest]
    apply read_place_of_ne
    rintro i hi rfl
    exact hfirst (Block.covers_add_ofNat hfirstFits hi)

/-- Blocks that lie beside each other are all there after the last of them was written. -/
theorem laidOut_placeAll (m : Memory) {blocks : List Block}
    (hfit : ∀ b ∈ blocks, b.stop ≤ 65536) (hbeside : blocks.Pairwise Block.Beside) :
    LaidOut blocks m (m.placeAll blocks) := by
  refine ⟨?_, fun a ha => read_placeAll_of_not_covers m hfit ha⟩
  induction blocks generalizing m with
  | nil => simp
  | cons b rest ih =>
    obtain ⟨hfirstFits, hrestFit⟩ := List.forall_mem_cons.mp hfit
    obtain ⟨hfirst, hrest⟩ := List.pairwise_cons.mp hbeside
    apply List.forall_mem_cons.mpr ⟨?_, ih (m.place b.address b.bytes) hrestFit hrest⟩
    have hsize : b.bytes.length ≤ 65536 := by
      rw [Block.stop] at hfirstFits
      omega
    refine Eq.trans ?_ (slice_place_self m b.address b.bytes hsize)
    apply slice_congr
    intro i hi
    -- the later blocks are beside the first one
    apply read_placeAll_of_not_covers _ hrestFit
    intro c hc
    exact (hfirst c hc).not_covers (Block.covers_add_ofNat hfirstFits hi)

end Memory

namespace CommandLine

open Memory

/-! ## The blocks of a program -/

/-- The bytes of the arguments that a program is given: the arguments in upper case with a blank in
front, as far as there is room for them. -/
def tailText (tail : List Char) : List UInt8 :=
  let tail := Text.upper tail
  if tail.isEmpty then [] else (Utf8.encode (' ' :: tail)).take maxTail

theorem length_tailText_le (tail : List Char) : (tailText tail).length ≤ 127 := by
  unfold tailText
  dsimp only
  split
  case isTrue => exact Nat.zero_le _
  case isFalse => exact List.length_take_le _ _

/-- What is written when a program is started: its file, the drive and the name of the first
argument, the three cells for the place in that file, and all arguments with their length. -/
def programBlocks (tail : List Char) (image : Array UInt8) : List Block :=
  let (drive, name) := firstArgument (Text.upper tail)
  [⟨0x0100, image.toList⟩, ⟨0x005C, drive :: FileName.padded (String.ofList name)⟩, ⟨0x0068, [0]⟩,
    ⟨0x007C, [0]⟩, ⟨0x006B, [0]⟩, ⟨0x0080, UInt8.ofNat (tailText tail).length :: tailText tail⟩]

/-- Naming a file in a block is writing the drive with the name and three zeros. -/
theorem write_eq_placeAll (m : Memory) (fcb : UInt16) (drive : UInt8) (name : String) :
    FileControlBlock.write m fcb drive name =
      m.placeAll [⟨fcb, drive :: FileName.padded name⟩, ⟨fcb + FileControlBlock.extentOffset, [0]⟩,
        ⟨fcb + FileControlBlock.currentRecordOffset, [0]⟩,
        ⟨fcb + FileControlBlock.recordCountOffset, [0]⟩] := by
  have hsplit : FileControlBlock.split 0 = (0, 0) := by decide
  have hrecords : FileControlBlock.recordsIn 0 0 = 0 := by decide
  rw [FileControlBlock.write, FileControlBlock.setPosition, hsplit]
  dsimp only
  rw [hrecords]
  simp only [placeAll, place, FileControlBlock.nameOffset]
  rfl

theorem prepareTail_eq (m : Memory) (tail : List Char) :
    prepareTail m tail =
      (FileControlBlock.write m defaultBlock (firstArgument (Text.upper tail)).1
        (String.ofList (firstArgument (Text.upper tail)).2)).place tailBuffer
          (UInt8.ofNat (tailText tail).length :: tailText tail) :=
  rfl

theorem prepareTail_place (m : Memory) (tail : List Char) (image : Array UInt8) :
    prepareTail (m.place programStart image.toList) tail =
      m.placeAll (programBlocks tail image) := by
  rw [prepareTail_eq, programBlocks, write_eq_placeAll]
  rfl

/-- The last block ends below the image, so only the image can run past the top of memory. -/
theorem stop_programBlocks {tail : List Char} {image : Array UInt8}
    (hfits : 0x0100 + image.size ≤ 65536) : ∀ b ∈ programBlocks tail image, b.stop ≤ 65536 := by
  have htext := length_tailText_le tail
  rw [programBlocks]
  obtain ⟨drive, name⟩ := firstArgument (Text.upper tail)
  simp only [List.mem_cons, List.not_mem_nil, or_false, forall_eq_or_imp, forall_eq, Block.stop,
    UInt16.reduceToNat, Array.length_toList, List.length_cons, List.length_nil,
    FileName.length_padded]
  omega

theorem beside_programBlocks (tail : List Char) (image : Array UInt8) :
    (programBlocks tail image).Pairwise Block.Beside := by
  have htext := length_tailText_le tail
  rw [programBlocks]
  obtain ⟨drive, name⟩ := firstArgument (Text.upper tail)
  simp only [List.pairwise_cons, List.mem_cons, List.not_mem_nil, or_false, forall_eq_or_imp,
    forall_eq, Block.Beside, Block.stop, UInt16.reduceToNat, Array.length_toList,
    List.length_cons, List.length_nil, FileName.length_padded, IsEmpty.forall_iff, implies_true,
    List.Pairwise.nil, and_true]
  omega

theorem laidOut_programBlocks (m : Memory) (tail : List Char) {image : Array UInt8}
    (hfits : 0x0100 + image.size ≤ 65536) :
    LaidOut (programBlocks tail image) m (m.placeAll (programBlocks tail image)) :=
  laidOut_placeAll m (stop_programBlocks hfits) (beside_programBlocks tail image)

/-- All blocks are above the first cells, and none is above the image. -/
theorem not_covers_programBlocks {tail : List Char} {image : Array UInt8} {a : UInt16}
    (ha : a.toNat < 0x005C ∨ 0x0100 + image.size ≤ a.toNat) :
    ∀ b ∈ programBlocks tail image, ¬b.Covers a := by
  have htext := length_tailText_le tail
  rw [programBlocks]
  obtain ⟨drive, name⟩ := firstArgument (Text.upper tail)
  simp only [List.mem_cons, List.not_mem_nil, or_false, forall_eq_or_imp, forall_eq, Block.Covers,
    Block.stop, UInt16.reduceToNat, Array.length_toList, List.length_cons, List.length_nil,
    FileName.length_padded]
  omega

/-! ## Starting a program or not -/

section

variable {s : Station} {word tail line : List Char} {image : Array UInt8}

theorem fits_programStart_iff (length : Nat) :
    Memory.Fits programStart length ↔ 0x0100 + length ≤ 65536 := by
  rw [Memory.Fits]
  rfl

/-- The length is checked before anything is written. -/
theorem loadProgram_of_not_fits (hfound : findProgram? s.disk word = some image)
    (hlong : ¬Memory.Fits programStart image.size) :
    loadProgram word tail s =
      (s.printLine ("ERROR: " ++ OutOfBounds.message ⟨programStart, image.size⟩), .done) := by
  obtain ⟨m, d, c, u⟩ := s
  have hload : m.load programStart image.toList = .error ⟨programStart, image.size⟩ :=
    if_neg hlong
  rw [loadProgram, hfound]
  simp only [hload]

theorem execute_of_commandOf?_none (h : commandOf? line = none) (s : Station) :
    execute line s = (s, .done) := by
  unfold commandOf? at h
  dsimp only at h
  split at h
  case isTrue hempty => simp only [execute, if_pos hempty]
  case isFalse => cases h

theorem perform_outcome_ne_run {command : Command} (hcommand : ∀ word, command ≠ .program word)
    (tail : List Char) (s : Station) (entry : UInt16) :
    (perform command tail s).2 ≠ .run entry := by
  cases command with
  | program word => exact absurd rfl (hcommand word)
  | directory => exact listDirectory_outcome_ne_run tail s
  | edit => exact edit_outcome_ne_run tail s
  | _ => exact CommandOutcome.noConfusion

/-- A line starts a program that is there and fits, or it leaves the memory as it is. -/
theorem execute_cases (line : List Char) (s : Station) :
    ((∀ entry, (execute line s).2 ≠ .run entry) ∧ (execute line s).1.memory = s.memory) ∨
      ∃ word tail image, commandOf? line = some (.program word, tail) ∧
        findProgram? s.disk word = some image ∧ 0x0100 + image.size ≤ 65536 ∧
        execute line s =
          (s.onMemory fun m => m.placeAll (programBlocks tail image), .run programStart) := by
  cases hline : commandOf? line with
  | none =>
    rw [execute_of_commandOf?_none hline]
    exact .inl ⟨nofun, rfl⟩
  | some obeyed =>
    obtain ⟨command, tail⟩ := obeyed
    rw [execute_of_commandOf? hline]
    by_cases hprogram : ∃ word, command = .program word
    case neg =>
      have hcommand : ∀ word, command ≠ .program word := fun word hword => hprogram ⟨word, hword⟩
      exact .inl ⟨perform_outcome_ne_run hcommand tail s,
        frame_perform Station.frame_memory s hcommand tail⟩
    case pos =>
      obtain ⟨word, rfl⟩ := hprogram
      rw [perform]
      cases hfound : findProgram? s.disk word with
      | none =>
        rw [loadProgram, hfound]
        exact .inl ⟨fun _ => CommandOutcome.noConfusion, Station.frame_memory.printLine s _⟩
      | some image =>
        by_cases hfits : Memory.Fits programStart image.size
        case neg =>
          rw [loadProgram_of_not_fits hfound hfits]
          exact .inl ⟨fun _ => CommandOutcome.noConfusion, Station.frame_memory.printLine s _⟩
        case pos =>
          rw [loadProgram_of_fits hfound hfits]
          simp only [prepareTail_place]
          exact .inr ⟨word, tail, image, rfl, hfound, (fits_programStart_iff _).mp hfits, rfl⟩

/-- Starting a program is all or nothing. A line that starts one starts it at the one place for
programs, with its file in full from there on, with its arguments in the blocks for them, and with
every other cell as it was: those below the blocks, those between them and those above the program.
A line that starts none leaves the memory as it is. For a program that is found it only matters
whether it fits: if it does not, that is reported, and nothing else is done. -/
theorem execute_all_or_nothing (line : List Char) (s : Station) :
    (∀ entry, (execute line s).2 = .run entry →
      entry = 0x0100 ∧ ∃ word tail image,
        commandOf? line = some (.program word, tail) ∧ findProgram? s.disk word = some image ∧
        0x0100 + image.size ≤ 65536 ∧ (tailText tail).length ≤ 127 ∧
        LaidOut (programBlocks tail image) s.memory (execute line s).1.memory ∧
        ∀ a : UInt16, a.toNat < 0x005C ∨ 0x0100 + image.size ≤ a.toNat →
          (execute line s).1.memory.read a = s.memory.read a) ∧
    ((∀ entry, (execute line s).2 ≠ .run entry) → (execute line s).1.memory = s.memory) ∧
    (∀ word tail image, commandOf? line = some (.program word, tail) →
      findProgram? s.disk word = some image →
      (0x0100 + image.size ≤ 65536 → (execute line s).2 = .run 0x0100) ∧
      (65536 < 0x0100 + image.size →
        execute line s =
            (s.printLine ("ERROR: " ++ OutOfBounds.message ⟨0x0100, image.size⟩), .done) ∧
          (execute line s).1.memory = s.memory)) := by
  refine ⟨?run, ?other, ?found⟩
  case run =>
    intro entry hrun
    rcases execute_cases line s with ⟨hnone, -⟩ | ⟨word, tail, image, hline, hfound, hfits, hdone⟩
    · exact absurd hrun (hnone entry)
    · rw [hdone, CommandOutcome.run.injEq] at hrun
      have hlaid : LaidOut (programBlocks tail image) s.memory (execute line s).1.memory := by
        simp only [hdone, Station.memory_onMemory]
        exact laidOut_programBlocks _ tail hfits
      exact ⟨hrun.symm, word, tail, image, hline, hfound, hfits, length_tailText_le tail, hlaid,
        fun a ha => hlaid.kept a (not_covers_programBlocks ha)⟩
  case other =>
    intro hnone
    rcases execute_cases line s with ⟨-, hmemory⟩ | ⟨word, tail, image, -, -, -, hdone⟩
    · exact hmemory
    · exact absurd (congrArg Prod.snd hdone) (hnone programStart)
  case found =>
    intro word tail image hline hfound
    rw [execute_of_commandOf? hline, perform]
    constructor
    · intro hfits
      rw [loadProgram_of_fits hfound ((fits_programStart_iff _).mpr hfits)]
      rfl
    · intro hlong
      have hnot : ¬Memory.Fits programStart image.size := by
        rw [fits_programStart_iff]
        omega
      rw [loadProgram_of_not_fits hfound hnot]
      exact ⟨rfl, Station.frame_memory.printLine s _⟩

end

/-- A computer with a program of one byte and one that is a byte too long. -/
def twoPrograms : Station :=
  .ofDrives [.memory (SortedMap.empty.insert "GO.COM" #[0x76]),
    .memory (SortedMap.empty.insert "LONG.COM" (Array.replicate 65281 0))]

theorem execute_all_or_nothing_twoPrograms :
    let begun := execute "go b:Data.txt".toList twoPrograms
    let refused := execute "B:long".toList twoPrograms
    begun.2 = .run 0x0100 ∧ begun.1.memory.slice 0x0100 1 = [0x76] ∧
      begun.1.memory.slice 0x005C 12 = 2 :: Utf8.encode "DATA    TXT".toList ∧
      begun.1.memory.slice 0x0080 12 = 11 :: Utf8.encode " B:DATA.TXT".toList ∧
      begun.1.memory.read 0x0101 = twoPrograms.memory.read 0x0101 ∧
      refused.2 = .done ∧ refused.1.memory = twoPrograms.memory := by
  dsimp only
  generalize hbegun : execute "go b:Data.txt".toList twoPrograms = begun
  generalize hrefused : execute "B:long".toList twoPrograms = refused
  have hgo : commandOf? "go b:Data.txt".toList =
      some (.program "GO".toList, "b:Data.txt".toList) := by decide
  have hlong : commandOf? "B:long".toList = some (.program "B:LONG".toList, []) := by decide
  have hgoFound : findProgram? twoPrograms.disk "GO".toList = some #[0x76] := by decide +kernel
  have hlongFound : findProgram? twoPrograms.disk "B:LONG".toList =
      some (Array.replicate 65281 0) := rfl
  have hblocks : programBlocks "b:Data.txt".toList #[0x76] =
      [⟨0x0100, [0x76]⟩, ⟨0x005C, 2 :: Utf8.encode "DATA    TXT".toList⟩, ⟨0x0068, [0]⟩,
        ⟨0x007C, [0]⟩, ⟨0x006B, [0]⟩, ⟨0x0080, 11 :: Utf8.encode " B:DATA.TXT".toList⟩] := rfl
  obtain ⟨hrun, -, hstarts⟩ := execute_all_or_nothing "go b:Data.txt".toList twoPrograms
  rw [hbegun] at hrun hstarts
  have hstarted : begun.2 = .run 0x0100 := (hstarts _ _ _ hgo hgoFound).1 (by decide)
  obtain ⟨-, word, tail, image, hline, hfound, -, -, hlaid, haside⟩ := hrun _ hstarted
  simp only [hgo, Option.some.injEq, Prod.mk.injEq, Command.program.injEq] at hline
  obtain ⟨rfl, rfl⟩ := hline
  obtain rfl := Option.some.inj (hgoFound.symm.trans hfound)
  rw [hblocks] at hlaid
  have hheld := hlaid.held
  simp only [List.forall_mem_cons] at hheld
  obtain ⟨himage, hargument, -, -, -, htail, -⟩ := hheld
  obtain ⟨-, -, hrefuses⟩ := execute_all_or_nothing "B:long".toList twoPrograms
  rw [hrefused] at hrefuses
  have hsize : 65536 < 0x0100 + (Array.replicate 65281 (0 : UInt8)).size := by
    rw [Array.size_replicate]
    omega
  obtain ⟨hdone, hmemory⟩ := (hrefuses _ _ _ hlong hlongFound).2 hsize
  exact ⟨hstarted, himage, hargument, htail, haside 0x0101 (.inr (by decide)),
    congrArg Prod.snd hdone, hmemory⟩

end CommandLine

end Cpm80
