import Cpm80.Computer
import Cpm80.Proofs.Checked.Commands
import Cpm80.Proofs.Runs
import Cpm80.Proofs.SequentialFile

/-!
# System calls, with every access checked

A program names a file by the bytes of a block, whose fields are cut out, and the drive by a number
that is one too large; records are cut out of the content of a file and written over it, and lines
and names are copied into memory entry by entry. Each of these accesses is checked. No call fails
a check, whatever the program asks for, and so no program does, however long it runs.
-/
namespace Cpm80

open Cpm80.Checked

/-! ## File control blocks -/

namespace FileName.Checked

def extension (raw : List UInt8) : Option (List UInt8) :=
  if 8 < raw.length then part? 8 (min raw.length 11) raw else some []

def ofPadded (raw : List UInt8) : Option String := do
  let base ← part? 0 (min 8 raw.length) raw
  let extension ← extension raw
  let base := fieldText base
  let extension := fieldText extension
  some (String.ofList (if extension.isEmpty then base else base ++ '.' :: extension))

theorem extension_eq (raw : List UInt8) : extension raw = some ((raw.drop 8).take 3) := by
  rw [extension]
  split
  case isTrue hlong =>
    rw [part?_of_le (Nat.le_min.mpr ⟨Nat.le_of_lt hlong, by decide⟩) (Nat.min_le_left _ _),
      Nat.min_comm, ← List.take_eq_take_min, List.drop_take]
  case isFalse hshort => rw [List.drop_eq_nil_of_le (Nat.not_lt.mp hshort), List.take_nil]

theorem ofPadded_eq (raw : List UInt8) : ofPadded raw = some (FileName.ofPadded raw) := by
  rw [ofPadded, part?_of_le (Nat.zero_le _) (Nat.min_le_right _ _), extension_eq, List.drop_zero,
    ← List.take_eq_take_min]
  rfl

end FileName.Checked

namespace FileControlBlock.Checked

def name (m : Memory) (fcb : UInt16) : Option String := do
  let raw ← (List.range 11).mapM fun i =>
    (add? 16 nameOffset.toNat i).map fun o => m.read (fcb + UInt16.ofNat o)
  FileName.Checked.ofPadded raw

theorem name_eq (m : Memory) (fcb : UInt16) :
    name m fcb = some (FileControlBlock.name m fcb) := by
  have hbyte : ∀ i ∈ List.range 11, ((add? 16 nameOffset.toNat i).map fun o =>
      m.read (fcb + UInt16.ofNat o)) = some (m.read (fcb + nameOffset + UInt16.ofNat i)) := by
    intro i hi
    have hoffset : nameOffset.toNat = 1 := rfl
    have hlt := List.mem_range.mp hi
    have hsum : nameOffset.toNat + i < 2 ^ 16 := by omega
    rw [add?_of_lt hsum, Option.map_some, UInt16.add_assoc, UInt16.ofNat_add, UInt16.ofNat_toNat]
  rw [name, mapM_some hbyte, Option.bind_eq_bind, Option.bind_some, FileName.Checked.ofPadded_eq]
  rfl

end FileControlBlock.Checked

/-! ## Records -/

namespace FileRecord.Checked

def get (content : Array UInt8) (n : Nat) : Option (List UInt8) := do
  let offset := n * size
  let chunk ← part? offset (min content.size (offset + size)) content.toList
  some ((List.range size).map fun i => chunk[i]?.getD endMark)

def set (content : Array UInt8) (n : Nat) (record : List UInt8) : Option (Array UInt8) := do
  let offset := n * size
  let filled := content.toList ++ List.replicate (offset + size - content.size) 0
  let written ← overwrite? filled offset record
  some written.toArray

/-- Behind the end of what there is stands what fills it up. -/
theorem map_getD_range {α : Type} {chunk : List α} {width : Nat} (h : chunk.length ≤ width)
    (x : α) :
    ((List.range width).map fun i => chunk[i]?.getD x) =
      chunk ++ List.replicate (width - chunk.length) x := by
  apply List.ext_getElem
  · simp
    omega
  · intro i hi _
    rw [List.getElem_map, List.getElem_range, List.getElem_append]
    split
    case isTrue hlt => rw [List.getElem?_eq_getElem hlt, Option.getD_some]
    case isFalse hge =>
      rw [List.getElem?_eq_none (Nat.not_lt.mp hge), Option.getD_none, List.getElem_replicate]

theorem get_eq {content : Array UInt8} {n : Nat} (h : n * size < content.size) :
    get content n = some (FileRecord.get content n) := by
  have hfirst : n * size ≤ min content.size (n * size + size) :=
    Nat.le_min.mpr ⟨Nat.le_of_lt h, Nat.le_add_right _ _⟩
  have hchunk : (content.toList.take (min content.size (n * size + size))).drop (n * size) =
      (content.extract (n * size) (n * size + size)).toList := by
    rw [Array.toList_extract, List.extract_eq_take_drop, ← List.drop_take, Nat.min_comm,
      ← Array.length_toList, ← List.take_eq_take_min]
  have hlength : (content.extract (n * size) (n * size + size)).toList.length ≤ size := by
    rw [Array.length_toList, Array.size_extract]
    omega
  rw [get, FileRecord.get, part?_of_le hfirst (Nat.min_le_left _ _), hchunk, Option.bind_eq_bind,
    Option.bind_some, map_getD_range hlength]

theorem set_eq (content : Array UInt8) (n : Nat) {record : List UInt8} (h : record.length = size) :
    set content n record = some (FileRecord.set content n record) := by
  have hset := toList_set content n record
  rw [set, ← Array.length_toList]
  dsimp only at hset ⊢
  generalize hfilled : content.toList ++
    List.replicate (n * size + size - content.toList.length) 0 = filled at hset ⊢
  have hlength : n * size + size ≤ filled.length := by
    rw [← hfilled, List.length_append, List.length_replicate]
    omega
  have hparts : filled.take (n * size) ++ (filled.drop (n * size)).take size ++
      filled.drop (n * size + size) = filled := by
    rw [List.append_assoc, ← List.drop_drop, List.take_append_drop, List.take_append_drop]
  have hfront : (filled.take (n * size)).length = n * size := by
    rw [List.length_take]
    omega
  have hold : record.length = ((filled.drop (n * size)).take size).length := by
    rw [h, List.length_take, List.length_drop]
    omega
  have hwritten := overwrite?_append (filled.take (n * size)) _ (filled.drop (n * size + size)) hold
  rw [hparts, hfront, List.append_assoc, ← hset] at hwritten
  rw [hwritten, Option.bind_eq_bind, Option.bind_some, Array.toArray_toList]

end FileRecord.Checked

/-! ## File operations -/

namespace DiskSystem.Checked

open FileControlBlock

def selected? (d : DiskSystem) (m : Memory) (fcb : UInt16) : Option (Option (Nat × Drive)) := do
  let byte := (driveByte m fcb).toNat
  let index ← if byte = 0 then some d.current else sub? byte 1
  if index < d.drives.length then do
    let drive ← d.drives[index]?
    some (some (index, drive))
  else some none

def openFile (d : DiskSystem) (m : Memory) (fcb : UInt16) : Option Reply := do
  match ← selected? d m fcb with
  | none => some (d.failed m)
  | some (_, drive) =>
    match drive.get? (← FileControlBlock.Checked.name m fcb) with
    | none => some (d.failed m)
    | some content =>
      some ⟨d, setPosition m fcb 0 (FileRecord.count content.size), Answer.success⟩

def closeFile (d : DiskSystem) (m : Memory) (fcb : UInt16) : Option Reply := do
  match ← selected? d m fcb with
  | none => some (d.failed m)
  | some (_, drive) => do
    let name ← FileControlBlock.Checked.name m fcb
    some (if drive.contains name then ⟨d, m, Answer.success⟩ else d.failed m)

/-- Copies a directory entry to the transfer address. -/
def searchNext (d : DiskSystem) (m : Memory) : Option Reply :=
  match d.found with
  | [] => some (d.failed m)
  | name :: rest => do
    let raw ← FileName.Checked.padded name
    let m ← Memory.Checked.placeFrom
      (fun i => (add? 16 1 i).map fun o => d.transfer + UInt16.ofNat o)
      (m.write d.transfer d.user) 0 raw
    some ⟨{ d with found := rest }, m, Answer.success⟩

def searchFirst (d : DiskSystem) (m : Memory) (fcb : UInt16) : Option Reply := do
  match ← selected? d m fcb with
  | none => some (d.failed m)
  | some (index, _) => do
    let found ← filesMatching d index (← FileControlBlock.Checked.name m fcb)
    searchNext { d with found } m

def deleteFiles (d : DiskSystem) (m : Memory) (fcb : UInt16) : Option Reply := do
  match ← selected? d m fcb with
  | none => some (d.failed m)
  | some (index, drive) =>
    match ← filesMatching d index (← FileControlBlock.Checked.name m fcb) with
    | [] => some (d.failed m)
    | names =>
      let (drive, e) := deleteAll drive names
      some ⟨d.setDrive index drive, m, if e.isNone then Answer.success else Answer.failure⟩

def readSequential (d : DiskSystem) (m : Memory) (fcb : UInt16) : Option Reply := do
  match ← selected? d m fcb with
  | none => some (d.failed m)
  | some (_, drive) =>
    match drive.get? (← FileControlBlock.Checked.name m fcb) with
    | none => some (d.failed m)
    | some content =>
      let record := position m fcb
      if record ≥ maxRecords ∨ content.size ≤ record * FileRecord.size then
        some ⟨d, m, Answer.endOfFile⟩
      else do
        let bytes ← FileRecord.Checked.get content record
        some ⟨d, setPosition (m.place d.transfer bytes) fcb (record + 1)
          (FileRecord.count content.size), Answer.success⟩

def writeSequential (d : DiskSystem) (m : Memory) (fcb : UInt16) : Option Reply := do
  match ← selected? d m fcb with
  | none => some (d.failed m)
  | some (index, drive) => do
    let name ← FileControlBlock.Checked.name m fcb
    match drive.get? name with
    | none => some (d.failed m)
    | some content =>
      let record := position m fcb
      if record ≥ maxRecords then some ⟨d, m, Answer.diskFull⟩
      else do
        let content ← FileRecord.Checked.set content record (m.slice d.transfer FileRecord.size)
        let records := FileRecord.count content.size
        match drive.save name content with
        | (drive, some _) => some ⟨d.setDrive index drive, m, Answer.failure⟩
        | (drive, none) =>
          some ⟨d.setDrive index drive, setPosition m fcb (record + 1) records, Answer.success⟩

def makeFile (d : DiskSystem) (m : Memory) (fcb : UInt16) : Option Reply := do
  match ← selected? d m fcb with
  | none => some (d.failed m)
  | some (index, drive) => do
    let name ← FileControlBlock.Checked.name m fcb
    if drive.contains name then some (d.failed m)
    else
      match drive.save name #[] with
      | (drive, some _) => some ⟨d.setDrive index drive, m, Answer.failure⟩
      | (drive, none) => some ⟨d.setDrive index drive, setPosition m fcb 0 0, Answer.success⟩

def renameFile (d : DiskSystem) (m : Memory) (fcb : UInt16) : Option Reply := do
  match ← selected? d m fcb with
  | none => some (d.failed m)
  | some (index, drive) => do
    let old ← FileControlBlock.Checked.name m fcb
    let new ← FileControlBlock.Checked.name m (fcb + renameOffset)
    let (drive, e) := drive.rename old new
    some ⟨d.setDrive index drive, m, if e.isNone then Answer.success else Answer.failure⟩

variable (d : DiskSystem) (m : Memory) (fcb : UInt16)

/-- The number of a drive that is used is below the number of drives. -/
theorem selected?_eq : selected? d m fcb = some (d.selected? m fcb) := by
  have hselected (index : Nat) :
      (if index < d.drives.length then do
        let drive ← d.drives[index]?
        some (some (index, drive))
      else some none) = some ((d.drive? index).map fun drive => (index, drive)) := by
    rw [drive?]
    split
    case isTrue hlt =>
      rw [List.getElem?_eq_getElem hlt]
      rfl
    case isFalse hge =>
      rw [List.getElem?_eq_none (Nat.not_lt.mp hge)]
      rfl
  rw [selected?, DiskSystem.selected?]
  dsimp only
  by_cases hbyte : (driveByte m fcb).toNat = 0
  case pos => simp only [if_pos hbyte, Option.bind_eq_bind, Option.bind_some, ← hselected]
  case neg =>
    simp only [if_neg hbyte, sub?_of_le (Nat.one_le_iff_ne_zero.mpr hbyte), Option.bind_eq_bind,
      Option.bind_some, ← hselected]

theorem openFile_eq : openFile d m fcb = some (d.openFile m fcb) := by
  rw [openFile, DiskSystem.openFile, selected?_eq]
  simp only [FileControlBlock.Checked.name_eq, Option.bind_eq_bind, Option.bind_some]
  cases d.selected? m fcb with
  | none => rfl
  | some selected =>
    dsimp only
    cases selected.2.get? (FileControlBlock.name m fcb) <;> rfl

theorem closeFile_eq : closeFile d m fcb = some (d.closeFile m fcb) := by
  rw [closeFile, DiskSystem.closeFile, selected?_eq]
  simp only [FileControlBlock.Checked.name_eq, Option.bind_eq_bind, Option.bind_some]
  cases d.selected? m fcb <;> rfl

theorem searchNext_eq : searchNext d m = some (d.searchNext m) := by
  rw [searchNext, DiskSystem.searchNext]
  cases d.found with
  | nil => rfl
  | cons name rest =>
    have hcell : ∀ i < 11, ((add? 16 1 i).map fun o => d.transfer + UInt16.ofNat o) =
        some (d.transfer + 1 + UInt16.ofNat i) := by
      intro i hi
      have hsum : 1 + i < 2 ^ 16 := by omega
      rw [add?_of_lt hsum, Option.map_some, UInt16.add_assoc, UInt16.ofNat_add]
      rfl
    have hlength : (FileName.padded name).length ≤ 11 :=
      Nat.le_of_eq (FileName.length_padded name)
    simp only [FileName.Checked.padded_eq, Memory.Checked.placeFrom_eq hcell _ hlength,
      Memory.place, Option.bind_eq_bind, Option.bind_some]

theorem searchFirst_eq : searchFirst d m fcb = some (d.searchFirst m fcb) := by
  rw [searchFirst, DiskSystem.searchFirst, selected?_eq]
  simp only [FileControlBlock.Checked.name_eq, filesMatching_eq, Option.bind_eq_bind,
    Option.bind_some, searchNext_eq]
  cases d.selected? m fcb <;> rfl

theorem deleteFiles_eq : deleteFiles d m fcb = some (d.deleteFiles m fcb) := by
  rw [deleteFiles, DiskSystem.deleteFiles, selected?_eq]
  simp only [FileControlBlock.Checked.name_eq, filesMatching_eq, Option.bind_eq_bind,
    Option.bind_some]
  cases d.selected? m fcb with
  | none => rfl
  | some selected =>
    dsimp only
    cases d.filesMatching selected.1 (FileControlBlock.name m fcb) <;> rfl

theorem readSequential_eq : readSequential d m fcb = some (d.readSequential m fcb) := by
  rw [readSequential, DiskSystem.readSequential, selected?_eq]
  simp only [FileControlBlock.Checked.name_eq, Option.bind_eq_bind, Option.bind_some]
  cases d.selected? m fcb with
  | none => rfl
  | some selected =>
    dsimp only
    cases selected.2.get? (FileControlBlock.name m fcb) with
    | none => rfl
    | some content =>
      dsimp only
      split
      case isTrue => rfl
      case isFalse hin =>
        have hlt : position m fcb * FileRecord.size < content.size :=
          Nat.not_le.mp fun hle => hin (.inr hle)
        rw [FileRecord.Checked.get_eq hlt, Option.bind_some]

theorem writeSequential_eq : writeSequential d m fcb = some (d.writeSequential m fcb) := by
  have hrecord : (m.slice d.transfer FileRecord.size).length = FileRecord.size :=
    Memory.length_slice m _ _
  rw [writeSequential, DiskSystem.writeSequential, selected?_eq]
  simp only [FileControlBlock.Checked.name_eq, Option.bind_eq_bind, Option.bind_some,
    FileRecord.Checked.set_eq _ _ hrecord]
  cases d.selected? m fcb with
  | none => rfl
  | some selected =>
    dsimp only
    cases selected.2.get? (FileControlBlock.name m fcb) with
    | none => rfl
    | some content =>
      dsimp only
      split
      case isTrue => rfl
      case isFalse =>
        rcases selected.2.save (FileControlBlock.name m fcb) (FileRecord.set content
          (position m fcb) (m.slice d.transfer FileRecord.size)) with ⟨drive, _ | e⟩ <;> rfl

theorem makeFile_eq : makeFile d m fcb = some (d.makeFile m fcb) := by
  rw [makeFile, DiskSystem.makeFile, selected?_eq]
  simp only [FileControlBlock.Checked.name_eq, Option.bind_eq_bind, Option.bind_some]
  cases d.selected? m fcb with
  | none => rfl
  | some selected =>
    dsimp only
    split
    case isTrue => rfl
    case isFalse =>
      rcases selected.2.save (FileControlBlock.name m fcb) #[] with ⟨drive, _ | e⟩ <;> rfl

theorem renameFile_eq : renameFile d m fcb = some (d.renameFile m fcb) := by
  rw [renameFile, DiskSystem.renameFile, selected?_eq]
  simp only [FileControlBlock.Checked.name_eq, Option.bind_eq_bind, Option.bind_some]
  cases d.selected? m fcb <;> rfl

end DiskSystem.Checked

/-! ## Calls -/

namespace SystemCall.Checked

def readBuffer (buffer : UInt16) : Station → Option Station
  | ⟨m, d, c, u⟩ => do
    let room := (m.read buffer).toNat
    let (line, c) := c.getLine
    let line := line.getD []
    let kept ← take? (min line.length room) line
    let m ← Memory.Checked.placeFrom
      (fun i => (add? 16 2 i).map fun o => buffer + UInt16.ofNat o)
      (m.write (buffer + 1) (UInt8.ofNat kept.length)) 0 kept
    some ⟨m, d, (c.putBytes kept).endLine, u⟩

/-- A file operation on the disks and the memory of a station. -/
def onFiles (f : DiskSystem → Memory → Option DiskSystem.Reply) :
    Station → Option (Station × UInt16)
  | ⟨m, d, c, u⟩ => do
    let ⟨d, m, answer⟩ ← f d m
    some (⟨m, d, c, u⟩, answer)

def execute (call : SystemCall) (parameter : UInt16) (s : Station) : Option (Station × UInt16) :=
  match call with
  | .readLine => do
    let s ← readBuffer parameter s
    some (s, Answer.success)
  | .openFile => onFiles (fun d m => DiskSystem.Checked.openFile d m parameter) s
  | .closeFile => onFiles (fun d m => DiskSystem.Checked.closeFile d m parameter) s
  | .searchFirst => onFiles (fun d m => DiskSystem.Checked.searchFirst d m parameter) s
  | .searchNext => onFiles (fun d m => DiskSystem.Checked.searchNext d m) s
  | .deleteFiles => onFiles (fun d m => DiskSystem.Checked.deleteFiles d m parameter) s
  | .readSequential => onFiles (fun d m => DiskSystem.Checked.readSequential d m parameter) s
  | .writeSequential => onFiles (fun d m => DiskSystem.Checked.writeSequential d m parameter) s
  | .makeFile => onFiles (fun d m => DiskSystem.Checked.makeFile d m parameter) s
  | .renameFile => onFiles (fun d m => DiskSystem.Checked.renameFile d m parameter) s
  -- the other calls take nothing out of a list and add up no addresses
  | .systemReset | .consoleInput | .consoleOutput | .printString | .consoleStatus | .version
  | .resetDisks | .selectDisk | .currentDisk | .setTransfer | .getUser | .setUser =>
    some (call.execute parameter s)

def perform (function : UInt8) (parameter : UInt16) (s : Station) : Option (Station × UInt16) :=
  match ofFunction? function with
  | some call => execute call parameter s
  | none => some (s, Answer.failure)

theorem readBuffer_eq (buffer : UInt16) (s : Station) :
    readBuffer buffer s = some (SystemCall.readBuffer buffer s) := by
  obtain ⟨m, d, c, u⟩ := s
  have hcell : ∀ i < 256, ((add? 16 2 i).map fun o => buffer + UInt16.ofNat o) =
      some (buffer + 1 + 1 + UInt16.ofNat i) := by
    intro i hi
    have hsum : 2 + i < 2 ^ 16 := by omega
    rw [add?_of_lt hsum, Option.map_some, UInt16.add_assoc, UInt16.add_assoc,
      ← UInt16.add_assoc 1 1, UInt16.ofNat_add]
    rfl
  have hkept (line : List UInt8) (room : Nat) :
      take? (min line.length room) line = some (line.take room) := by
    rw [take?_of_le (Nat.min_le_left _ _), Nat.min_comm, ← List.take_eq_take_min]
  have hlength (line : List UInt8) : (line.take (m.read buffer).toNat).length ≤ 256 :=
    (List.length_take_le _ _).trans (Nat.le_of_lt (m.read buffer).toNat_lt)
  simp only [readBuffer, SystemCall.readBuffer, hkept, Option.bind_eq_bind, Option.bind_some,
    Memory.Checked.placeFrom_eq hcell _ (hlength _), Memory.place]

theorem onFiles_eq {f : DiskSystem → Memory → Option DiskSystem.Reply}
    {g : DiskSystem → Memory → DiskSystem.Reply} (h : ∀ d m, f d m = some (g d m)) (s : Station) :
    onFiles f s = some (s.onFiles g) := by
  obtain ⟨m, d, c, u⟩ := s
  rw [onFiles, h]
  rfl

theorem execute_eq (call : SystemCall) (parameter : UInt16) (s : Station) :
    execute call parameter s = some (call.execute parameter s) := by
  cases call with
  | readLine =>
    rw [execute, readBuffer_eq]
    rfl
  | openFile => exact onFiles_eq (fun d m => DiskSystem.Checked.openFile_eq d m parameter) s
  | closeFile => exact onFiles_eq (fun d m => DiskSystem.Checked.closeFile_eq d m parameter) s
  | searchFirst => exact onFiles_eq (fun d m => DiskSystem.Checked.searchFirst_eq d m parameter) s
  | searchNext => exact onFiles_eq DiskSystem.Checked.searchNext_eq s
  | deleteFiles => exact onFiles_eq (fun d m => DiskSystem.Checked.deleteFiles_eq d m parameter) s
  | readSequential =>
    exact onFiles_eq (fun d m => DiskSystem.Checked.readSequential_eq d m parameter) s
  | writeSequential =>
    exact onFiles_eq (fun d m => DiskSystem.Checked.writeSequential_eq d m parameter) s
  | makeFile => exact onFiles_eq (fun d m => DiskSystem.Checked.makeFile_eq d m parameter) s
  | renameFile => exact onFiles_eq (fun d m => DiskSystem.Checked.renameFile_eq d m parameter) s
  | systemReset | consoleInput | consoleOutput | printString | consoleStatus | version
  | resetDisks | selectDisk | currentDisk | setTransfer | getUser | setUser => rfl

theorem perform_eq (function : UInt8) (parameter : UInt16) (s : Station) :
    perform function parameter s = some (SystemCall.perform function parameter s) := by
  rw [perform, SystemCall.perform]
  cases ofFunction? function with
  | none => rfl
  | some call => exact execute_eq call parameter s

end SystemCall.Checked

/-! ## Programs -/

namespace Computer.Checked

def serve : Computer → Option Computer
  | ⟨p, s⟩ => do
    let function := p.c
    let (s, answer) ← SystemCall.Checked.perform function p.de s
    let p := setAnswer answer p
    let ⟨m, d, c, u⟩ := s.onUsage fun u => u.addSystemCall function
    if SystemCall.ofFunction? function = some .systemReset then
      some ⟨{ p with pc := warmBoot }, m, d, c, u⟩
    else
      let target := m.readWord p.sp
      some ⟨{ p with sp := p.sp + 2, pc := target }, m, d, c, u⟩

/-- The addresses of instructions are words, so their accesses need no checks. -/
def advance (c : Computer) : Option (Computer × Progress) :=
  if c.cpu.halted then some (c, .halted)
  else if c.cpu.pc = entryPoint then
    if waitsForInput c.cpu.c c.station.console then some (c, .waiting)
    else do
      let c ← serve c
      some (c, .executed callCost)
  else
    match c.executeInstruction with
    | (c, cost) => some (c, .executed cost)

theorem serve_eq (c : Computer) : serve c = some c.serve := by
  obtain ⟨p, s⟩ := c
  rw [serve, SystemCall.Checked.perform_eq, Option.bind_eq_bind, Option.bind_some, Computer.serve]
  dsimp only
  split <;> rfl

theorem advance_eq (c : Computer) : advance c = some c.advance := by
  rw [advance, Computer.advance, serve_eq]
  simp only [Option.bind_eq_bind, Option.bind_some, apply_ite some]

def run (budget : Nat) (c : Computer) (t : Machine.Tally) :
    Option (Computer × Machine.Tally × Bool) :=
  if _hb : budget = 0 then some (c, t, false)
  else
    match h : advance c with
    | none => none
    | some (c, .executed cost) =>
      have := cost_pos (Option.some.inj ((advance_eq _).symm.trans h))
      run (budget - cost) c ⟨t.instructions + 1, t.cycles + cost⟩
    | some (c, .halted) => some (c, t, false)
    | some (c, .waiting) => some (c, t, true)
termination_by budget

/-- A program may run for as long as it likes. -/
theorem run_eq (budget : Nat) (c : Computer) (t : Machine.Tally) :
    run budget c t = some (c.run budget t) := by
  induction budget, c using run_induction generalizing t with
  | zero c => rw [run, dif_pos rfl, run_zero]
  | @executed budget cost c d hb h ih =>
    have hchecked : advance c = some (d, .executed cost) := by rw [advance_eq, h]
    rw [run_executed hb h, ← ih, run, dif_neg hb]
    split <;> simp_all [Machine.Tally.add]
  | @halted budget c h =>
    have hchecked : advance c = some (c, .halted) := by rw [advance_eq, h]
    rw [run_halted h, run]
    split
    · rfl
    · split <;> simp_all
  | @waiting budget c hb h =>
    have hchecked : advance c = some (c, .waiting) := by rw [advance_eq, h]
    rw [run_waiting hb h, run, dif_neg hb]
    split <;> simp_all

end Computer.Checked

end Cpm80
