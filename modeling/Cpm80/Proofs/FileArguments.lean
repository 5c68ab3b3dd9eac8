import Cpm80.Proofs.ProgramLoading
import Cpm80.Proofs.TypedNames

/-!
# A file that is given to a program

The first argument of a program is put into the default control block, in upper case and parted into
a drive byte and the two fields of a name. What the calls on files read out of the block is the file
that the argument designates: the same name, on the drive whose letter stands in front of it or else
on the current one, from its first record on. The calls in sequence then do to that file what they
do to a file with a place in it, and to no other file anything.
-/
namespace Cpm80

/-! ## The files on the drives -/

theorem Lookup.written_written (found : Lookup) (drive : Nat) (normal : String)
    (content later : Array UInt8) :
    (found.written drive normal content).written drive normal later =
      found.written drive normal later := by
  funext index name
  simp only [written]
  split <;> rfl

/-- Writing to a file what is in it changes nothing. -/
theorem DiskSystem.written_file?_self {d : DiskSystem} {index : Nat} {name normal : String}
    {content : Array UInt8} (hnormal : FileName.normalize? name = some normal)
    (h : d.file? index name = some content) :
    Lookup.written d.file? index normal content = d.file? := by
  funext other otherName
  rw [Lookup.written]
  split
  case isTrue hsame =>
    rw [hsame.1, file?_congr (hsame.2.trans hnormal.symm), h]
  case isFalse => rfl

namespace Station.Follows

open DiskSystem FileName

variable {fcb transfer : UInt16} {index : Nat} {name normal : String} {s : Station}
  {f : SequentialFile}

/-- A call in sequence changes its file alone. -/
theorem file?_perform (h : Follows fcb transfer index name s f)
    (hnormal : normalize? name = some normal) (call : FileCall) :
    (SystemCall.perform call.function fcb s).1.disk.file? =
      Lookup.written s.disk.file? index normal (f.perform call).1.bytes.toArray := by
  have hself := written_file?_self hnormal h.file?_eq
  obtain ⟨files, hselected, hget⟩ := h.content_eq
  rw [← h.name_eq] at hget
  cases call with
  | openFile =>
    have hdone : SystemCall.perform FileCall.openFile.function fcb s =
        s.onFiles fun d m => d.openFile m fcb := rfl
    rw [hdone, onFiles_eq (openFile_eq hselected hget), SequentialFile.perform, hself]
  | readNext =>
    have hdone : SystemCall.perform FileCall.readNext.function fcb s =
        s.onFiles fun d m => d.readSequential m fcb := rfl
    have hreply := readSequential_eq hselected hget h.position_eq
    have hbytes : (f.perform .readNext).1.bytes = f.bytes := by
      rw [SequentialFile.perform]
      split <;> rfl
    rw [hdone, hbytes, hself]
    split at hreply <;> rw [onFiles_eq hreply]
  | writeNext =>
    have hdone : SystemCall.perform FileCall.writeNext.function fcb s =
        s.onFiles fun d m => d.writeSequential m fcb := rfl
    have hrecord : s.memory.slice s.disk.transfer 128 = f.buffer.toList := by
      rw [h.transfer_eq, h.buffer_eq]
    have hsave (new : Array UInt8) : (Drive.memory files).save (FileControlBlock.name s.memory fcb)
        new = (.memory (files.insert normal new), none) := by
      rw [h.name_eq]
      simp only [Drive.memory_save, Files.save, FileName.normalize, hnormal]
      rfl
    have hreply := writeSequential_eq hselected hget h.position_eq hrecord (hsave _)
    have hnext := f.next_le
    rw [hdone, SequentialFile.perform]
    by_cases hend : f.next = 32768
    · rw [if_pos (by omega)] at hreply
      rw [onFiles_eq hreply, dif_pos hend, hself]
    · rw [if_neg (by omega)] at hreply
      rw [onFiles_eq hreply, dif_neg hend]
      have hcontent : FileRecord.set f.bytes.toArray f.next f.buffer.toList =
          (SequentialFile.withRecord f.bytes f.next f.buffer).toArray := by
        rw [← FileRecord.set_eq_withRecord f.bytes.toArray, Array.toArray_toList]
      rw [file?_setDrive_insert (drive?_of_selected? hselected), hcontent]

theorem file?_move (h : Follows fcb transfer index name s f)
    (hnormal : normalize? name = some normal) (m : FileMove) :
    (s.move fcb m).disk.file? =
      Lookup.written s.disk.file? index normal (f.move m).bytes.toArray := by
  cases m with
  | fill record => exact (written_file?_self hnormal h.file?_eq).symm
  | call call => exact h.file?_perform hnormal call

/-- No number of moves changes another file. -/
theorem file?_after (h : Follows fcb transfer index name s f)
    (hapart : Memory.Apart fcb FileControlBlock.length transfer 128)
    (hnormal : normalize? name = some normal) (moves : List FileMove) :
    (s.after fcb moves).disk.file? =
      Lookup.written s.disk.file? index normal (f.after moves).bytes.toArray := by
  induction moves generalizing s f with
  | nil => exact (written_file?_self hnormal h.file?_eq).symm
  | cons m rest ih =>
    have hrest := ih (h.move hapart m)
    rw [h.file?_move hnormal m, Lookup.written_written] at hrest
    exact hrest

end Station.Follows

namespace CommandLine

open Text FileName

/-! ## Programs at work on their argument -/

/-- The tail buffer begins behind the default block. -/
theorem read_prepareTail_defaultBlock (m : Memory) (tail : List Char) {i : Nat}
    (hi : i < FileControlBlock.length) :
    (prepareTail m tail).read (defaultBlock + UInt16.ofNat i) =
      (FileControlBlock.write m defaultBlock (firstArgument (upper tail)).1
        (String.ofList (firstArgument (upper tail)).2)).read (defaultBlock + UInt16.ofNat i) := by
  have htext := length_tailText_le tail
  have hapart : Memory.Apart defaultBlock FileControlBlock.length tailBuffer
      (UInt8.ofNat (tailText tail).length :: tailText tail).length := by
    apply Memory.Apart.of_le (by decide)
    have hbuffer : tailBuffer.toNat = 128 := rfl
    rw [hbuffer, List.length_cons]
    omega
  rw [prepareTail_eq]
  exact hapart.read_place hi

theorem position_write (m : Memory) (fcb : UInt16) (drive : UInt8) (name : String) :
    FileControlBlock.position (FileControlBlock.write m fcb drive name) fcb = 0 :=
  (FileControlBlock.encodes_setPosition _ fcb (Nat.zero_le 32768) 0).position_eq
    (Nat.zero_le 32768)

variable {s : Station} {line tail start base extension : List Char} {command : Command}
  {entry : UInt16} {index : Nat} {files : Files} {content : Array UInt8}

/-- What a program that is started finds in the default block, if its first argument designates a
file on a drive in memory. -/
theorem block_of_run (hrun : (execute line s).2 = .run entry)
    (hline : commandOf? line = some (command, tail)) (hstart : Designates s.disk start index)
    (hletter : ∀ c ∈ start.head?, c.isAlpha) (hname : IsTyped base extension)
    (hfirst : (words tail).head? = some (start ++ joined base extension))
    (hdrive : s.disk.drive? index = some (.memory files)) :
    (execute line s).1.disk = s.disk ∧
      (execute line s).1.disk.selected? (execute line s).1.memory defaultBlock =
        some (index, .memory files) ∧
      FileControlBlock.name (execute line s).1.memory defaultBlock =
        String.ofList (upper (joined base extension)) ∧
      FileControlBlock.position (execute line s).1.memory defaultBlock = 0 := by
  obtain ⟨byte, hargument, hselects⟩ := hstart.firstArgument_eq hletter hname.notMem_colon hfirst
  rcases execute_cases line s with ⟨hnone, -⟩ | ⟨word, tail', image, hline', -, -, hdone⟩
  · exact absurd hrun (hnone entry)
  · rw [hline, Option.some.injEq, Prod.mk.injEq] at hline'
    obtain ⟨-, rfl⟩ := hline'
    rw [hdone]
    simp only [Station.disk_onMemory, Station.memory_onMemory, ← prepareTail_place]
    have hblock := fun i hi =>
      read_prepareTail_defaultBlock (s.memory.place programStart image.toList) tail (i := i) hi
    rw [hargument] at hblock
    have hfront : ∀ i < 12, _ := fun i hi => hblock i (hi.trans (by decide))
    refine ⟨trivial, ?_, ?_, ?_⟩
    · exact DiskSystem.selected?_congr (DiskSystem.selected?_of_selects hselects hdrive _ _)
        (FileControlBlock.driveByte_congr hfront) rfl hdrive
    · rw [FileControlBlock.name_congr hfront, FileControlBlock.name_write, hname.ofPadded_padded]
    · rw [FileControlBlock.position_congr hblock, position_write]

/-- A file argument reaches the program. However the program that a line starts opens, reads and
writes through the default block, with the transfer address where it is by default, it works on the
file that the first argument of the line designates, from its first record on: each call answers,
fills the buffer and leaves the drives as for that file alone, and no other file changes. A prefix
may be the letter of any drive, and letters may be typed in either case. -/
theorem argument_reaches_program (hrun : (execute line s).2 = .run entry)
    (hline : commandOf? line = some (command, tail)) (hstart : Designates s.disk start index)
    (hletter : ∀ c ∈ start.head?, c.isAlpha) (hname : IsTyped base extension)
    (hfirst : (words tail).head? = some (start ++ joined base extension))
    (hdrive : s.disk.drive? index = some (.memory files))
    (hfile : (Drive.memory files).get? (String.ofList (joined base extension)) = some content)
    (htransfer : s.disk.transfer = 0x0080) :
    let loaded := (execute line s).1
    let opened := SequentialFile.ofStation loaded 0x005C content
    opened.bytes = content.toList ∧ opened.next = 0 ∧
      ∀ (moves : List FileMove) (call : FileCall),
        let done := SystemCall.perform call.function 0x005C (loaded.after 0x005C moves)
        let expected := (opened.after moves).perform call
        done.2 = expected.2 ∧ done.1.memory.slice 0x0080 128 = expected.1.buffer.toList ∧
          done.1.disk.file? = Lookup.written s.disk.file? index
            (String.ofList (upper (joined base extension))) expected.1.bytes.toArray := by
  intro loaded opened
  obtain ⟨hdisk, hselected, hnamed, hplace⟩ :=
    block_of_run hrun hline hstart hletter hname hfirst hdrive
  have hnormal := hname.normalize?_eq
  have hupper := isNormal_of_normalize? hnormal
  have hcontent : (Drive.memory files).get? (FileControlBlock.name loaded.memory defaultBlock) =
      some content := by
    rw [hnamed, Drive.get?, hupper]
    rwa [Drive.get?, hnormal] at hfile
  have hfollows := Station.follows_ofStation hselected hcontent
  have hloadedTransfer : loaded.disk.transfer = 0x0080 := by
    rw [hdisk, htransfer]
  rw [hloadedTransfer, hnamed] at hfollows
  have hapart : Memory.Apart defaultBlock FileControlBlock.length 0x0080 128 :=
    .of_le (by decide) (by decide)
  refine ⟨rfl, hplace, fun moves call => ?_⟩
  have hafter := hfollows.after hapart moves
  have hanswered := hafter.perform hapart call
  have hfiles := hafter.file?_perform hupper call
  rw [hfollows.file?_after hapart hupper moves, Lookup.written_written, hdisk] at hfiles
  exact ⟨hanswered.answer_eq, hanswered.follows.buffer_eq, hfiles⟩

/-- A computer with a program on its first drive and a note on its second. -/
def programAndNote : Station :=
  .ofDrives [.memory (SortedMap.empty.insert "GO.COM" #[0x76]), .memory Station.noteFiles]

/-- A program that writes a record of sevens over the note it was given and goes back. -/
theorem argument_reaches_program_note :
    let loaded := (execute "go b:Note.txt more".toList programAndNote).1
    let done := SystemCall.perform FileCall.readNext.function 0x005C
      (loaded.after 0x005C (.call .openFile :: Station.noteMoves))
    (execute "go b:Note.txt more".toList programAndNote).2 = .run programStart ∧
      Designates programAndNote.disk "b:".toList 1 ∧ IsTyped "Note".toList "txt".toList ∧
      done.2 = 0 ∧ done.1.memory.slice 0x0080 128 = List.replicate 128 7 ∧
      done.1.disk.file? 1 "NOTE.TXT" = some (Array.replicate 128 7) ∧
      done.1.disk.file? 0 "GO.COM" = some #[0x76] := by
  have hline : commandOf? "go b:Note.txt more".toList =
      some (.program "GO".toList, "b:Note.txt more".toList) := by decide
  have hfound : findProgram? programAndNote.disk "GO".toList = some #[0x76] := by decide +kernel
  have hrun : (execute "go b:Note.txt more".toList programAndNote).2 = .run programStart := by
    rw [execute_of_commandOf? hline, perform, loadProgram_of_fits hfound (by decide)]
  have hstart : Designates programAndNote.disk "b:".toList 1 :=
    .letter (by decide) (by decide) (by decide)
  have hletter : ∀ c ∈ "b:".toList.head?, c.isAlpha := by
    intro c hc
    obtain rfl := Option.some.inj hc
    decide
  have hname : IsTyped "Note".toList "txt".toList := by decide
  have hfile : (Drive.memory Station.noteFiles).get?
      (String.ofList (joined "Note".toList "txt".toList)) = some #[0x4F, 0x4E, 0x45] := by
    decide +kernel
  obtain ⟨-, -, hcalls⟩ := argument_reaches_program hrun hline hstart hletter hname (by decide)
    rfl hfile rfl
  obtain ⟨hanswer, hbuffer, hfiles⟩ := hcalls (.call .openFile :: Station.noteMoves) .readNext
  refine ⟨hrun, hstart, hname, ?_, ?_, ?_, ?_⟩
  · rw [hanswer]
    decide +kernel
  · rw [hbuffer]
    decide +kernel
  · rw [hfiles]
    decide +kernel
  · rw [hfiles]
    decide +kernel

end CommandLine

end Cpm80
