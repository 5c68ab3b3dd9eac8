import Cpm80.Proofs.FileBlocks
import Cpm80.Proofs.SequentialFile
import Cpm80.SystemCall

/-!
# Sequential access through a control block

A program that opens, reads and writes a file on a drive in memory through one control block,
and puts what it likes into the transfer buffer between its calls, sees the machine
`SequentialFile`. The block must lie apart from the buffer: nothing else is asked of where
the two are, what the block holds or how long the file is. `Follows` is the relation between
the two machines; each call and each filling of the buffer keeps it.
-/
namespace Cpm80

/-- A move of a program that uses a file in sequence. -/
inductive FileMove
  | fill (record : Vector UInt8 128)
  | call (call : FileCall)

namespace SequentialFile

def move (f : SequentialFile) : FileMove → SequentialFile
  | .fill record => f.fill record
  | .call call => (f.perform call).1

def after (f : SequentialFile) (moves : List FileMove) : SequentialFile :=
  moves.foldl move f

/-- What a station shows through a block, for a file with the given content. -/
def ofStation (s : Station) (fcb : UInt16) (content : Array UInt8) : SequentialFile where
  bytes := content.toList
  next := FileControlBlock.position s.memory fcb
  buffer := Vector.ofFn fun i => s.memory.read (s.disk.transfer + UInt16.ofNat i)
  next_le := FileControlBlock.position_le s.memory fcb

end SequentialFile

namespace Drive

/-- A file that is on a drive in memory can be saved there, and is then what was saved. -/
theorem save_memory {files : Files} {name : String} {content : Array UInt8}
    (h : (memory files).get? name = some content) (new : Array UInt8) :
    ∃ saved, (memory files).save name new = (memory saved, none) ∧
      (memory saved).get? name = some new := by
  rw [get?] at h
  obtain ⟨normal, hnormal, -⟩ := Option.bind_eq_some_iff.mp h
  refine ⟨files.insert normal new, ?_, ?_⟩
  · simp only [memory_save, Files.save, FileName.normalize, hnormal]
    rfl
  · rw [get?, hnormal, Option.bind_some]
    exact (SortedMap.get?_insert files normal normal new).trans (if_pos rfl)

end Drive

namespace DiskSystem

variable {d : DiskSystem} {m : Memory} {fcb : UInt16} {index : Nat} {drive : Drive}
  {content : Array UInt8}

/-- The drive a block selects is the one with its number. -/
theorem drive?_of_selected? (h : d.selected? m fcb = some (index, drive)) :
    d.drive? index = some drive := by
  rw [selected?] at h
  obtain ⟨found, hfound, heq⟩ := Option.map_eq_some_iff.mp h
  cases heq
  exact hfound

theorem file?_of_selected? (h : d.selected? m fcb = some (index, drive)) (name : String) :
    d.file? index name = drive.get? name := by
  rw [file?, drive?_of_selected? h, Option.bind_some]

theorem drive?_setDrive (h : d.drive? index = some drive) (new : Drive) :
    (d.setDrive index new).drive? index = some new := by
  obtain ⟨hlt, -⟩ := List.getElem?_eq_some_iff.mp h
  rw [setDrive, drive?, List.getElem?_set_self hlt]

/-- Only the drive byte of the block and the drive with its number matter. -/
theorem selected?_congr {n : Memory} {e : DiskSystem} {new : Drive}
    (h : d.selected? m fcb = some (index, drive))
    (hbyte : FileControlBlock.driveByte n fcb = FileControlBlock.driveByte m fcb)
    (hcurrent : e.current = d.current) (hdrive : e.drive? index = some new) :
    e.selected? n fcb = some (index, new) := by
  rw [selected?] at h ⊢
  obtain ⟨found, hfound, heq⟩ := Option.map_eq_some_iff.mp h
  cases heq
  rw [hbyte, hcurrent, hdrive]
  rfl

theorem openFile_eq (hselected : d.selected? m fcb = some (index, drive))
    (hget : drive.get? (FileControlBlock.name m fcb) = some content) :
    d.openFile m fcb =
      ⟨d, FileControlBlock.setPosition m fcb 0 (FileRecord.count content.size), 0⟩ := by
  simp only [openFile, hselected, hget]
  rfl

theorem readSequential_eq (hselected : d.selected? m fcb = some (index, drive))
    (hget : drive.get? (FileControlBlock.name m fcb) = some content) {next : Nat}
    (hposition : FileControlBlock.position m fcb = next) :
    d.readSequential m fcb =
      if 32768 ≤ next ∨ content.size ≤ next * 128 then ⟨d, m, 1⟩
      else
        ⟨d, FileControlBlock.setPosition (m.place d.transfer (FileRecord.get content next)) fcb
          (next + 1) (FileRecord.count content.size), 0⟩ := by
  simp only [readSequential, hselected, hget, hposition]
  rfl

theorem writeSequential_eq (hselected : d.selected? m fcb = some (index, drive))
    (hget : drive.get? (FileControlBlock.name m fcb) = some content) {next : Nat}
    (hposition : FileControlBlock.position m fcb = next) {record : List UInt8}
    (hrecord : m.slice d.transfer 128 = record) {saved : Drive}
    (hsave : drive.save (FileControlBlock.name m fcb) (FileRecord.set content next record) =
      (saved, none)) :
    d.writeSequential m fcb =
      if 32768 ≤ next then ⟨d, m, 2⟩
      else
        ⟨d.setDrive index saved, FileControlBlock.setPosition m fcb (next + 1)
          (FileRecord.count (FileRecord.set content next record).size), 0⟩ := by
  have hslice : m.slice d.transfer FileRecord.size = record := hrecord
  simp only [writeSequential, hselected, hget, hposition, hslice, hsave]
  rfl

end DiskSystem

namespace Station

theorem onFiles_eq {s : Station} {f : DiskSystem → Memory → DiskSystem.Reply}
    {d : DiskSystem} {m : Memory} {answer : UInt16}
    (h : f s.disk s.memory = ⟨d, m, answer⟩) :
    s.onFiles f = ({ s with disk := d, memory := m }, answer) := by
  rw [onFiles, h]

/-- A program puts bytes of its own where records are transferred. -/
def fill (s : Station) (record : Vector UInt8 128) : Station :=
  { s with memory := s.memory.place s.disk.transfer record.toList }

def move (fcb : UInt16) (s : Station) : FileMove → Station
  | .fill record => s.fill record
  | .call call => (SystemCall.perform call.function fcb s).1

def after (fcb : UInt16) (s : Station) (moves : List FileMove) : Station :=
  moves.foldl (move fcb) s

/-- Through the block at `fcb` the station shows the file, which is the one called `name` on
the drive with number `index`. -/
structure Follows (fcb transfer : UInt16) (index : Nat) (name : String) (s : Station)
    (f : SequentialFile) : Prop where
  transfer_eq : s.disk.transfer = transfer
  name_eq : FileControlBlock.name s.memory fcb = name
  content_eq : ∃ files, s.disk.selected? s.memory fcb = some (index, .memory files) ∧
    (Drive.memory files).get? name = some f.bytes.toArray
  position_eq : FileControlBlock.position s.memory fcb = f.next
  buffer_eq : s.memory.slice transfer 128 = f.buffer.toList

namespace Follows

open FileControlBlock

variable {fcb transfer : UInt16} {index : Nat} {name : String} {s : Station}
  {f : SequentialFile}

theorem file?_eq (h : Follows fcb transfer index name s f) :
    s.disk.file? index name = some f.bytes.toArray := by
  obtain ⟨files, hselected, hget⟩ := h.content_eq
  rw [DiskSystem.file?_of_selected? hselected, hget]

/-- Filling the buffer changes no cell of the block. -/
theorem fill (h : Follows fcb transfer index name s f)
    (hapart : Memory.Apart fcb length transfer 128) (record : Vector UInt8 128) :
    Follows fcb transfer index name (s.fill record) (f.fill record) := by
  have hsize : record.toList.length = 128 := Vector.length_toList
  have hblock : ∀ i < length, (s.fill record).memory.read (fcb + UInt16.ofNat i) =
      s.memory.read (fcb + UInt16.ofNat i) := by
    intro i hi
    rw [Station.fill, h.transfer_eq]
    rw [← hsize] at hapart
    exact hapart.read_place hi
  have hfront : ∀ i < 12, (s.fill record).memory.read (fcb + UInt16.ofNat i) =
      s.memory.read (fcb + UInt16.ofNat i) := by
    intro i hi
    exact hblock i (by rw [length]; omega)
  obtain ⟨files, hselected, hget⟩ := h.content_eq
  constructor
  case transfer_eq => exact h.transfer_eq
  case name_eq => rw [name_congr hfront, h.name_eq]
  case content_eq =>
    refine ⟨files, ?_, hget⟩
    exact DiskSystem.selected?_congr hselected (driveByte_congr hfront) rfl
      (DiskSystem.drive?_of_selected? hselected)
  case position_eq => rw [position_congr hblock, h.position_eq, SequentialFile.fill]
  case buffer_eq =>
    have hbuffer := Memory.slice_place_self s.memory transfer record.toList (by omega)
    rw [hsize] at hbuffer
    rw [Station.fill, h.transfer_eq]
    exact hbuffer

/-- Setting the place changes neither the drive and the name in the block nor the buffer. -/
theorem setPosition (h : Follows fcb transfer index name s f)
    (hapart : Memory.Apart fcb length transfer 128) {next : Nat} (hnext : next ≤ 32768) :
    Follows fcb transfer index name
        { s with memory :=
            FileControlBlock.setPosition s.memory fcb next (FileRecord.count f.bytes.length) }
        { f with next, next_le := hnext } := by
  have hfront : ∀ i < 12, (FileControlBlock.setPosition s.memory fcb next
      (FileRecord.count f.bytes.length)).read (fcb + UInt16.ofNat i) =
      s.memory.read (fcb + UInt16.ofNat i) :=
    fun i hi => read_setPosition_front s.memory fcb next _ hi
  obtain ⟨files, hselected, hget⟩ := h.content_eq
  constructor
  case transfer_eq => exact h.transfer_eq
  case name_eq => rw [name_congr hfront, h.name_eq]
  case content_eq =>
    refine ⟨files, ?_, hget⟩
    exact DiskSystem.selected?_congr hselected (driveByte_congr hfront) rfl
      (DiskSystem.drive?_of_selected? hselected)
  case position_eq => exact (encodes_setPosition s.memory fcb hnext _).position_eq hnext
  case buffer_eq => rw [slice_setPosition hapart, h.buffer_eq]

/-- Saving the file changes the drive and nothing else. -/
theorem save (h : Follows fcb transfer index name s f) {drive : Drive}
    (hselected : s.disk.selected? s.memory fcb = some (index, drive)) (new : Array UInt8) :
    ∃ saved, drive.save name new = (saved, none) ∧
      Follows fcb transfer index name { s with disk := s.disk.setDrive index saved }
        { f with bytes := new.toList } := by
  obtain ⟨files, hfiles, hget⟩ := h.content_eq
  obtain rfl : drive = .memory files := by simpa using hselected.symm.trans hfiles
  obtain ⟨saved, hsave, hsaved⟩ := Drive.save_memory hget new
  refine ⟨.memory saved, hsave, ?_⟩
  constructor
  case transfer_eq => exact h.transfer_eq
  case name_eq => exact h.name_eq
  case content_eq =>
    refine ⟨saved, ?_, hsaved⟩
    exact DiskSystem.selected?_congr hselected rfl rfl
      (DiskSystem.drive?_setDrive (DiskSystem.drive?_of_selected? hselected) _)
  case position_eq => exact h.position_eq
  case buffer_eq => exact h.buffer_eq

/-- What a call on a followed file comes to: the answer and the state after it are those of
the file, a call that did something has set the place, and one that did not has changed
nothing. -/
structure Answered (fcb transfer : UInt16) (index : Nat) (name : String) (s : Station)
    (done : Station × UInt16) (expected : SequentialFile × UInt16) : Prop where
  answer_eq : done.2 = expected.2
  follows : Follows fcb transfer index name done.1 expected.1
  encodes : done.2 = 0 →
    Encodes done.1.memory fcb expected.1.next expected.1.bytes.length
  unchanged : done.2 ≠ 0 → done.1 = s

/-- A call that does its work ends by setting the place. -/
theorem setPosition_answered (h : Follows fcb transfer index name s f) (before : Station)
    (hapart : Memory.Apart fcb length transfer 128) {next : Nat} (hnext : next ≤ 32768) :
    Answered fcb transfer index name before
      ({ s with memory :=
          FileControlBlock.setPosition s.memory fcb next (FileRecord.count f.bytes.length) }, 0)
      ({ f with next, next_le := hnext }, 0) where
  answer_eq := rfl
  follows := h.setPosition hapart hnext
  encodes _ := encodes_setPosition s.memory fcb hnext f.bytes.length
  unchanged hne := absurd rfl hne

/-- A call that refuses leaves both machines alone. -/
theorem refused_answered (h : Follows fcb transfer index name s f) {answer : UInt16}
    (hanswer : answer ≠ 0) :
    Answered fcb transfer index name s (s, answer) (f, answer) where
  answer_eq := rfl
  follows := h
  encodes hzero := absurd hzero hanswer
  unchanged _ := rfl

/-- The file that the calls find through the block. -/
theorem found (h : Follows fcb transfer index name s f) :
    ∃ drive, s.disk.selected? s.memory fcb = some (index, drive) ∧
      drive.get? (FileControlBlock.name s.memory fcb) = some f.bytes.toArray := by
  obtain ⟨files, hselected, hget⟩ := h.content_eq
  exact ⟨.memory files, hselected, by rw [h.name_eq, hget]⟩

theorem openFile (h : Follows fcb transfer index name s f)
    (hapart : Memory.Apart fcb length transfer 128) :
    Answered fcb transfer index name s (s.onFiles fun d m => d.openFile m fcb)
      (f.perform .openFile) := by
  obtain ⟨drive, hselected, hget⟩ := h.found
  rw [onFiles_eq (DiskSystem.openFile_eq hselected hget), List.size_toArray]
  exact h.setPosition_answered s hapart (Nat.zero_le 32768)

theorem readNext (h : Follows fcb transfer index name s f)
    (hapart : Memory.Apart fcb length transfer 128) :
    Answered fcb transfer index name s (s.onFiles fun d m => d.readSequential m fcb)
      (f.perform .readNext) := by
  obtain ⟨drive, hselected, hget⟩ := h.found
  have hnext := f.next_le
  have hreply := DiskSystem.readSequential_eq hselected hget h.position_eq
  rw [List.size_toArray, FileRecord.get_eq_recordAt, List.toList_toArray] at hreply
  by_cases hend : f.next = 32768 ∨ f.bytes.length ≤ 128 * f.next
  · rw [if_pos (by omega)] at hreply
    rw [onFiles_eq hreply, SequentialFile.perform, dif_pos hend]
    exact h.refused_answered (by decide)
  · rw [if_neg (by omega)] at hreply
    rw [onFiles_eq hreply, SequentialFile.perform, dif_neg hend]
    have hlt : f.next + 1 ≤ 32768 := by omega
    have hfill := h.fill hapart (SequentialFile.recordAt f.bytes f.next)
    have hanswered := hfill.setPosition_answered s hapart hlt
    simp only [Station.fill, SequentialFile.fill] at hanswered
    exact hanswered

theorem writeNext (h : Follows fcb transfer index name s f)
    (hapart : Memory.Apart fcb length transfer 128) :
    Answered fcb transfer index name s (s.onFiles fun d m => d.writeSequential m fcb)
      (f.perform .writeNext) := by
  obtain ⟨drive, hselected, hget⟩ := h.found
  have hnext := f.next_le
  have hrecord : s.memory.slice s.disk.transfer 128 = f.buffer.toList := by
    rw [h.transfer_eq, h.buffer_eq]
  have hbytes := FileRecord.set_eq_withRecord f.bytes.toArray f.next f.buffer
  obtain ⟨saved, hsave, hsaved⟩ :=
    h.save hselected (FileRecord.set f.bytes.toArray f.next f.buffer.toList)
  rw [← h.name_eq] at hsave
  have hreply := DiskSystem.writeSequential_eq hselected hget h.position_eq hrecord hsave
  rw [← Array.length_toList, hbytes] at hreply
  rw [hbytes] at hsaved
  by_cases hend : f.next = 32768
  · rw [if_pos (by omega)] at hreply
    rw [onFiles_eq hreply, SequentialFile.perform, dif_pos hend]
    exact h.refused_answered (by decide)
  · rw [if_neg (by omega)] at hreply
    rw [onFiles_eq hreply, SequentialFile.perform, dif_neg hend]
    have hlt : f.next + 1 ≤ 32768 := by omega
    exact hsaved.setPosition_answered s hapart hlt

/-- Each call on a followed file is answered as the file answers it. -/
theorem perform (h : Follows fcb transfer index name s f)
    (hapart : Memory.Apart fcb length transfer 128) (call : FileCall) :
    Answered fcb transfer index name s (SystemCall.perform call.function fcb s)
      (f.perform call) := by
  cases call with
  | openFile => exact h.openFile hapart
  | readNext => exact h.readNext hapart
  | writeNext => exact h.writeNext hapart

theorem move (h : Follows fcb transfer index name s f)
    (hapart : Memory.Apart fcb length transfer 128) (m : FileMove) :
    Follows fcb transfer index name (s.move fcb m) (f.move m) := by
  cases m with
  | fill record => exact h.fill hapart record
  | call call => exact (h.perform hapart call).follows

theorem after (h : Follows fcb transfer index name s f)
    (hapart : Memory.Apart fcb length transfer 128) (moves : List FileMove) :
    Follows fcb transfer index name (s.after fcb moves) (f.after moves) := by
  induction moves generalizing s f with
  | nil => exact h
  | cons m rest ih => exact ih (h.move hapart m)

end Follows

/-- A block that names a file on a drive in memory shows that file, at the place its extent
and record bytes give. -/
theorem follows_ofStation {s : Station} {fcb : UInt16} {index : Nat} {files : Files}
    {content : Array UInt8}
    (hselected : s.disk.selected? s.memory fcb = some (index, .memory files))
    (hcontent : (Drive.memory files).get? (FileControlBlock.name s.memory fcb) = some content) :
    Follows fcb s.disk.transfer index (FileControlBlock.name s.memory fcb) s
      (.ofStation s fcb content) where
  transfer_eq := rfl
  name_eq := rfl
  content_eq := ⟨files, hselected, hcontent⟩
  position_eq := rfl
  buffer_eq := by
    apply List.ext_getElem
    · simp [SequentialFile.ofStation]
    · intro i hi hlt
      simp [SequentialFile.ofStation, Memory.slice]

/-- Sequential access refines a file with a place in it: after any moves a call gives the
answer, the buffer and the bytes that the file gives, and a call that did something leaves the
place of the file in the block, while one that did not leaves everything as it was. -/
theorem sequential_access {s : Station} {fcb : UInt16} {index : Nat} {files : Files}
    {content : Array UInt8} (hapart : Memory.Apart fcb 33 s.disk.transfer 128)
    (hselected : s.disk.selected? s.memory fcb = some (index, .memory files))
    (hcontent : (Drive.memory files).get? (FileControlBlock.name s.memory fcb) = some content)
    (moves : List FileMove) (call : FileCall) :
    let before := s.after fcb moves
    let done := SystemCall.perform call.function fcb before
    let expected := ((SequentialFile.ofStation s fcb content).after moves).perform call
    done.2 = expected.2 ∧
      done.1.memory.slice s.disk.transfer 128 = expected.1.buffer.toList ∧
      done.1.disk.file? index (FileControlBlock.name s.memory fcb) =
        some expected.1.bytes.toArray ∧
      (done.2 = 0 → FileControlBlock.Encodes done.1.memory fcb expected.1.next
        expected.1.bytes.length) ∧
      (done.2 ≠ 0 → done.1 = before) := by
  intro before done expected
  have hfollows := (follows_ofStation hselected hcontent).after hapart moves
  have hanswered := hfollows.perform hapart call
  exact ⟨hanswered.answer_eq, hanswered.follows.buffer_eq, hanswered.follows.file?_eq,
    hanswered.encodes, hanswered.unchanged⟩

/-- The files of a drive with one file of three bytes. -/
def noteFiles : Files :=
  .ofList [("NOTE.TXT", #[0x4F, 0x4E, 0x45])]

/-- A station with that drive and a block for the file at the usual place. -/
def noteStation : Station :=
  { ofDrives [.memory noteFiles] with
    memory := FileControlBlock.write .blank 0x005C 1 "NOTE.TXT" }

/-- Writing a record of sevens over the file and going back to its start. -/
def noteMoves : List FileMove :=
  [.fill (Vector.replicate 128 7), .call .writeNext, .call .openFile]

theorem sequential_access_note :
    Memory.Apart 0x005C 33 noteStation.disk.transfer 128 ∧
      noteStation.disk.selected? noteStation.memory 0x005C = some (0, .memory noteFiles) ∧
      (Drive.memory noteFiles).get? (FileControlBlock.name noteStation.memory 0x005C) =
        some #[0x4F, 0x4E, 0x45] ∧
      (SystemCall.perform FileCall.readNext.function 0x005C
        (noteStation.after 0x005C noteMoves)).1.memory.slice noteStation.disk.transfer 128 =
          List.replicate 128 7 := by
  have hapart : Memory.Apart 0x005C 33 noteStation.disk.transfer 128 :=
    .of_le (by decide) (by decide)
  have hbyte : FileControlBlock.driveByte noteStation.memory 0x005C = 1 := by decide +kernel
  have hselected : noteStation.disk.selected? noteStation.memory 0x005C =
      some (0, .memory noteFiles) := by
    rw [DiskSystem.selected?, hbyte]
    rfl
  have hcontent : (Drive.memory noteFiles).get?
      (FileControlBlock.name noteStation.memory 0x005C) = some #[0x4F, 0x4E, 0x45] := by
    decide +kernel
  obtain ⟨-, hbuffer, -⟩ :=
    sequential_access hapart hselected hcontent noteMoves .readNext
  have hsevens : (((SequentialFile.ofStation noteStation 0x005C #[0x4F, 0x4E, 0x45]).after
      noteMoves).perform .readNext).1.buffer.toList = List.replicate 128 7 := by
    decide +kernel
  rw [hsevens] at hbuffer
  exact ⟨hapart, hselected, hcontent, hbuffer⟩

end Station

end Cpm80
