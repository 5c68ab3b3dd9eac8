import Cpm80.FileContent
import Cpm80.FileName
import Cpm80.Memory

/-!
# File control blocks

A program names a file and keeps its place in it by a block of 33 bytes in memory: a drive
byte, the padded name, and the number of the next record, split into an extent of 128 records
and the record within it. The place after the last record that can be addressed is kept as
record 128 of the last extent.
-/
namespace Cpm80.FileControlBlock

def nameOffset : UInt16 := 0x01
def extentOffset : UInt16 := 0x0C
def recordCountOffset : UInt16 := 0x0F
def renameOffset : UInt16 := 0x10
def currentRecordOffset : UInt16 := 0x20

def recordsPerExtent : Nat := 128

/-- How many records can be addressed in sequence. -/
def maxRecords : Nat := 256 * recordsPerExtent

/-- The drive byte: zero for the current drive, else one more than the number of a drive. -/
def driveByte (m : Memory) (fcb : UInt16) : UInt8 :=
  m.read fcb

/-- The name of the file. -/
def name (m : Memory) (fcb : UInt16) : String :=
  FileName.ofPadded (m.slice (fcb + nameOffset) 11)

/-- The number of the next record. A record byte past the end of the extent counts as its
end. -/
def position (m : Memory) (fcb : UInt16) : Nat :=
  (m.read (fcb + extentOffset)).toNat * recordsPerExtent +
    min (m.read (fcb + currentRecordOffset)).toNat recordsPerExtent

/-- The extent and the record within it of a place in a file. -/
def split (next : Nat) : Nat × Nat :=
  if next < maxRecords then (next / recordsPerExtent, next % recordsPerExtent)
  else (maxRecords / recordsPerExtent - 1, recordsPerExtent)

/-- How many of the `records` of a file lie in an extent. -/
def recordsIn (extent records : Nat) : Nat :=
  min (records - extent * recordsPerExtent) recordsPerExtent

/-- Sets the place to record `next` of a file of `records` records. -/
def setPosition (m : Memory) (fcb : UInt16) (next records : Nat) : Memory :=
  let (extent, record) := split next
  ((m.write (fcb + extentOffset) (UInt8.ofNat extent)).write
    (fcb + currentRecordOffset) (UInt8.ofNat record)).write
    (fcb + recordCountOffset) (UInt8.ofNat (recordsIn extent records))

/-- Makes the block name a file, at its first record. -/
def write (m : Memory) (fcb : UInt16) (drive : UInt8) (name : String) : Memory :=
  setPosition ((m.write fcb drive).place (fcb + nameOffset) (FileName.padded name)) fcb 0 0

end Cpm80.FileControlBlock
