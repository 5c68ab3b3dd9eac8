import Cpm80.Text.Blank
import Cpm80.Text.Utf8

/-!
# What a file holds

A file is read and written in records of 128 bytes. The last record may be short: it reads as
if it were filled up with the end mark, and writing at or past the end fills up with zeros.

A text on a drive ends at the first end mark. Its lines end in a line feed with any number of
carriage returns before it; they are written with one carriage return, and the end mark
follows the last.
-/
namespace Cpm80

namespace FileRecord

def size : Nat := 128

/-- Marks the end of a text inside its last record. -/
def endMark : UInt8 := 0x1A

/-- The number of records that hold `length` bytes. -/
def count (length : Nat) : Nat :=
  (length + size - 1) / size

/-- The record of a file with number `n`. -/
def get (content : Array UInt8) (n : Nat) : List UInt8 :=
  let found := (content.extract (n * size) (n * size + size)).toList
  found ++ List.replicate (size - found.length) endMark

/-- Puts the bytes of a record over the record with number `n`. -/
def set (content : Array UInt8) (n : Nat) (record : List UInt8) : Array UInt8 :=
  let filled := content ++ Array.replicate (n * size + size - content.size) 0
  filled.extract 0 (n * size) ++ record.toArray ++ filled.extract (n * size + size) filled.size

end FileRecord

namespace TextFile

/-- The bytes before the end mark. -/
def body (content : Array UInt8) : List UInt8 :=
  content.toList.takeWhile (· ≠ FileRecord.endMark)

def withoutReturns (line : List Char) : List Char :=
  (line.reverse.dropWhile (· = '\r')).reverse

def lines (content : Array UInt8) : List (List Char) :=
  (Text.lines (Utf8.decodeLenient (body content))).map withoutReturns

def ofLines (lines : List (List Char)) : Array UInt8 :=
  (lines.flatMap (fun line => Utf8.encode (line ++ ['\r', '\n'])) ++
    [FileRecord.endMark]).toArray

end TextFile

end Cpm80
