import Cpm80.Drive
import Cpm80.FileControlBlock

/-!
# The disk system

The drives, the one that is current, the address that records are transferred to and from,
the user number, and the names that a search has still to report. File operations take a
file control block in memory. They answer zero for success, and change nothing when they
answer that a file, a drive or a record is missing.
-/
namespace Cpm80

structure DiskSystem where
  drives : List Drive
  current : Nat := 0
  /-- Where records are transferred. -/
  transfer : UInt16 := 0x0080
  user : UInt8 := 0
  /-- The rest of the snapshot that the latest search took. -/
  found : List String := []

namespace Answer

/-- The answers of the file operations. -/
def success : UInt16 := 0x0000
def endOfFile : UInt16 := 0x0001
def diskFull : UInt16 := 0x0002
def failure : UInt16 := 0xFFFF

end Answer

namespace DiskSystem

def ofDrives (drives : List Drive) : DiskSystem := { drives }

def defaultTransfer : UInt16 := 0x0080

/-- Back to the first drive, the default transfer address and no search. The user number
stays. -/
def reset (d : DiskSystem) : DiskSystem :=
  { d with current := 0, transfer := defaultTransfer, found := [] }

/-- There is no drive with the number. -/
structure NoSuchDrive where
  index : Nat
  deriving DecidableEq, Repr

def NoSuchDrive.message (e : NoSuchDrive) : String :=
  "no such drive " ++ e.index.repr

def select (d : DiskSystem) (index : Nat) : Except NoSuchDrive DiskSystem :=
  if index < d.drives.length then .ok { d with current := index } else .error ⟨index⟩

def drive? (d : DiskSystem) (index : Nat) : Option Drive :=
  d.drives[index]?

def setDrive (d : DiskSystem) (index : Nat) (drive : Drive) : DiskSystem :=
  { d with drives := d.drives.set index drive }

/-- A file on a drive, if there are such a drive and such a file. -/
def file? (d : DiskSystem) (index : Nat) (name : String) : Option (Array UInt8) :=
  (d.drive? index).bind fun drive => drive.get? name

/-- The names on a drive that match a pattern. -/
def filesMatching (d : DiskSystem) (index : Nat) (pattern : String) : List String :=
  match d.drive? index with
  | some drive => drive.list.filter fun name => FileName.isMatch name pattern
  | none => []

/-- Saves a file on a drive; without such a drive there is no result. -/
def saveFile (d : DiskSystem) (index : Nat) (name : String) (content : Array UInt8) :
    DiskSystem × Option (Option DriveError) :=
  match d.drive? index with
  | some drive =>
    let (drive, e) := drive.save name content
    (d.setDrive index drive, some e)
  | none => (d, none)

/-- What a file operation leaves behind: the disk system, the memory and the answer. -/
structure Reply where
  disk : DiskSystem
  memory : Memory
  answer : UInt16

/-- The drive that a file control block selects, with its number. -/
def selected? (d : DiskSystem) (m : Memory) (fcb : UInt16) : Option (Nat × Drive) :=
  let byte := (FileControlBlock.driveByte m fcb).toNat
  let index := if byte = 0 then d.current else byte - 1
  (d.drive? index).map fun drive => (index, drive)

def failed (d : DiskSystem) (m : Memory) : Reply :=
  ⟨d, m, Answer.failure⟩

def openFile (d : DiskSystem) (m : Memory) (fcb : UInt16) : Reply :=
  match d.selected? m fcb with
  | none => d.failed m
  | some (_, drive) =>
    match drive.get? (FileControlBlock.name m fcb) with
    | none => d.failed m
    | some content =>
      ⟨d, FileControlBlock.setPosition m fcb 0 (FileRecord.count content.size), Answer.success⟩

/-- Nothing is buffered, so closing only asks whether the file is there. -/
def closeFile (d : DiskSystem) (m : Memory) (fcb : UInt16) : Reply :=
  match d.selected? m fcb with
  | none => d.failed m
  | some (_, drive) =>
    if drive.contains (FileControlBlock.name m fcb) then ⟨d, m, Answer.success⟩ else d.failed m

/-- Reports the next name of the search at the transfer address: the user number and the
padded name. -/
def searchNext (d : DiskSystem) (m : Memory) : Reply :=
  match d.found with
  | [] => d.failed m
  | name :: rest =>
    ⟨{ d with found := rest }, m.place d.transfer (d.user :: FileName.padded name),
      Answer.success⟩

/-- Takes a snapshot of the matching names and reports the first. -/
def searchFirst (d : DiskSystem) (m : Memory) (fcb : UInt16) : Reply :=
  match d.selected? m fcb with
  | none => d.failed m
  | some (index, _) =>
    searchNext { d with found := d.filesMatching index (FileControlBlock.name m fcb) } m

/-- Deletes files of a drive one after another, up to the first that cannot be deleted. -/
def deleteAll (drive : Drive) : List String → Drive × Option DriveError
  | [] => (drive, none)
  | name :: rest =>
    match drive.delete name with
    | (drive, none) => deleteAll drive rest
    | (drive, some e) => (drive, some e)

def deleteFiles (d : DiskSystem) (m : Memory) (fcb : UInt16) : Reply :=
  match d.selected? m fcb with
  | none => d.failed m
  | some (index, drive) =>
    match d.filesMatching index (FileControlBlock.name m fcb) with
    | [] => d.failed m
    | names =>
      let (drive, e) := deleteAll drive names
      ⟨d.setDrive index drive, m, if e.isNone then Answer.success else Answer.failure⟩

def readSequential (d : DiskSystem) (m : Memory) (fcb : UInt16) : Reply :=
  match d.selected? m fcb with
  | none => d.failed m
  | some (_, drive) =>
    match drive.get? (FileControlBlock.name m fcb) with
    | none => d.failed m
    | some content =>
      let record := FileControlBlock.position m fcb
      if record ≥ FileControlBlock.maxRecords ∨ content.size ≤ record * FileRecord.size then
        ⟨d, m, Answer.endOfFile⟩
      else
        let m := m.place d.transfer (FileRecord.get content record)
        ⟨d, FileControlBlock.setPosition m fcb (record + 1) (FileRecord.count content.size),
          Answer.success⟩

def writeSequential (d : DiskSystem) (m : Memory) (fcb : UInt16) : Reply :=
  match d.selected? m fcb with
  | none => d.failed m
  | some (index, drive) =>
    let name := FileControlBlock.name m fcb
    match drive.get? name with
    | none => d.failed m
    | some content =>
      let record := FileControlBlock.position m fcb
      if record ≥ FileControlBlock.maxRecords then ⟨d, m, Answer.diskFull⟩
      else
        let content := FileRecord.set content record (m.slice d.transfer FileRecord.size)
        let records := FileRecord.count content.size
        match drive.save name content with
        | (drive, some _) => ⟨d.setDrive index drive, m, Answer.failure⟩
        | (drive, none) =>
          ⟨d.setDrive index drive, FileControlBlock.setPosition m fcb (record + 1) records,
            Answer.success⟩

def makeFile (d : DiskSystem) (m : Memory) (fcb : UInt16) : Reply :=
  match d.selected? m fcb with
  | none => d.failed m
  | some (index, drive) =>
    let name := FileControlBlock.name m fcb
    if drive.contains name then d.failed m
    else
      match drive.save name #[] with
      | (drive, some _) => ⟨d.setDrive index drive, m, Answer.failure⟩
      | (drive, none) =>
        ⟨d.setDrive index drive, FileControlBlock.setPosition m fcb 0 0, Answer.success⟩

/-- The new name is in a second block inside the first. -/
def renameFile (d : DiskSystem) (m : Memory) (fcb : UInt16) : Reply :=
  match d.selected? m fcb with
  | none => d.failed m
  | some (index, drive) =>
    let old := FileControlBlock.name m fcb
    let new := FileControlBlock.name m (fcb + FileControlBlock.renameOffset)
    let (drive, e) := drive.rename old new
    ⟨d.setDrive index drive, m, if e.isNone then Answer.success else Answer.failure⟩

end DiskSystem

end Cpm80
