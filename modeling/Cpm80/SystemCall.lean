import Cpm80.Station

/-!
# System calls

A program asks for a service by a function number and one parameter, a byte or an address.
The answer is a word. Functions that are not provided answer failure.
-/
namespace Cpm80

inductive SystemCall
  | systemReset
  | consoleInput
  | consoleOutput
  | printString
  | readLine
  | consoleStatus
  | version
  | resetDisks
  | selectDisk
  | openFile
  | closeFile
  | searchFirst
  | searchNext
  | deleteFiles
  | readSequential
  | writeSequential
  | makeFile
  | renameFile
  | currentDisk
  | setTransfer
  | getUser
  | setUser
  deriving DecidableEq, Repr

namespace SystemCall

def ofFunction? (n : UInt8) : Option SystemCall :=
  match n.toNat with
  | 0 => some systemReset
  | 1 => some consoleInput
  | 2 => some consoleOutput
  | 9 => some printString
  | 10 => some readLine
  | 11 => some consoleStatus
  | 12 => some version
  | 13 => some resetDisks
  | 14 => some selectDisk
  | 15 => some openFile
  | 16 => some closeFile
  | 17 => some searchFirst
  | 18 => some searchNext
  | 19 => some deleteFiles
  | 20 => some readSequential
  | 21 => some writeSequential
  | 22 => some makeFile
  | 23 => some renameFile
  | 25 => some currentDisk
  | 26 => some setTransfer
  | 32 => some getUser
  | 33 => some setUser
  | _ => none

/-- The number that a program passes for a call. -/
def number : SystemCall → UInt8
  | systemReset => 0
  | consoleInput => 1
  | consoleOutput => 2
  | printString => 9
  | readLine => 10
  | consoleStatus => 11
  | version => 12
  | resetDisks => 13
  | selectDisk => 14
  | openFile => 15
  | closeFile => 16
  | searchFirst => 17
  | searchNext => 18
  | deleteFiles => 19
  | readSequential => 20
  | writeSequential => 21
  | makeFile => 22
  | renameFile => 23
  | currentDisk => 25
  | setTransfer => 26
  | getUser => 32
  | setUser => 33

theorem number_of_ofFunction? {function : UInt8} {call : SystemCall}
    (h : ofFunction? function = some call) : function = call.number := by
  rw [ofFunction?] at h
  split at h
  all_goals cases h
  all_goals exact UInt8.toNat_inj.mp (by assumption)

theorem ofFunction?_number (call : SystemCall) : ofFunction? call.number = some call := by
  cases call <;> rfl

theorem ofFunction?_eq_some_iff {function : UInt8} {call : SystemCall} :
    ofFunction? function = some call ↔ function = call.number :=
  ⟨number_of_ofFunction?, fun h => h ▸ ofFunction?_number call⟩

def description : SystemCall → String
  | systemReset => "system reset"
  | consoleInput => "console input"
  | consoleOutput => "console output"
  | printString => "print string"
  | readLine => "read console buffer"
  | consoleStatus => "console status"
  | version => "version"
  | resetDisks => "reset disk system"
  | selectDisk => "select disk"
  | openFile => "open file"
  | closeFile => "close file"
  | searchFirst => "search first"
  | searchNext => "search next"
  | deleteFiles => "delete file"
  | readSequential => "read sequential"
  | writeSequential => "write sequential"
  | makeFile => "make file"
  | renameFile => "rename file"
  | currentDisk => "current disk"
  | setTransfer => "set dma"
  | getUser => "get user number"
  | setUser => "set user number"

/-- What a function number stands for, in words. -/
def describe (function : UInt8) : String :=
  match ofFunction? function with
  | some call => call.description
  | none => "unknown"

/-- The characters from an address up to a dollar sign, and at most `limit`. -/
def textAt (m : Memory) : (limit : Nat) → UInt16 → List UInt8 → List UInt8
  | 0, _, done => done.reverse
  | limit + 1, a, done =>
    let b := m.read a
    if b = 0x24 then done.reverse else textAt m limit (a + 1) (b :: done)

/-- Reads a byte and shows it; zero if none is waiting. -/
def readByte : Station → Station × UInt16
  | ⟨m, d, c, u⟩ =>
    match c.getByte with
    | (some b, c) => (⟨m, d, c.putByte b, u⟩, b.toUInt16)
    | (none, c) => (⟨m, d, c, u⟩, 0)

/-- Reads a line into a buffer, whose first byte is the room it has. The second byte becomes
the number of characters kept, which follow it and are shown. -/
def readBuffer (buffer : UInt16) : Station → Station
  | ⟨m, d, c, u⟩ =>
    let room := (m.read buffer).toNat
    let (line, c) := c.getLine
    let kept := (line.getD []).take room
    ⟨m.place (buffer + 1) (UInt8.ofNat kept.length :: kept), d, (c.putBytes kept).endLine, u⟩

/-- The release that programs are told. -/
def release : UInt16 := 0x0022

/-- Performs a call with its parameter; a byte parameter is the low half. -/
def execute (call : SystemCall) (parameter : UInt16) (s : Station) : Station × UInt16 :=
  match call with
  | systemReset | resetDisks => (s.onDisk DiskSystem.reset, Answer.success)
  | consoleInput => readByte s
  | consoleOutput => (s.onConsole fun c => c.putByte (lowByte parameter), Answer.success)
  | printString =>
    let text := textAt s.memory 65536 parameter []
    (s.onConsole fun c => c.putBytes text, Answer.success)
  | readLine => (readBuffer parameter s, Answer.success)
  | consoleStatus => (s, 0x00FF)
  | version => (s, release)
  | selectDisk =>
    match s.disk.select (lowByte parameter).toNat with
    | .ok d => (s.onDisk fun _ => d, Answer.success)
    | .error _ => (s, Answer.failure)
  | openFile => s.onFiles fun d m => d.openFile m parameter
  | closeFile => s.onFiles fun d m => d.closeFile m parameter
  | searchFirst => s.onFiles fun d m => d.searchFirst m parameter
  | searchNext => s.onFiles fun d m => d.searchNext m
  | deleteFiles => s.onFiles fun d m => d.deleteFiles m parameter
  | readSequential => s.onFiles fun d m => d.readSequential m parameter
  | writeSequential => s.onFiles fun d m => d.writeSequential m parameter
  | makeFile => s.onFiles fun d m => d.makeFile m parameter
  | renameFile => s.onFiles fun d m => d.renameFile m parameter
  | currentDisk => (s, UInt16.ofNat s.disk.current)
  | setTransfer => (s.onDisk fun d => { d with transfer := parameter }, Answer.success)
  | getUser => (s, s.disk.user.toUInt16)
  | setUser => (s.onDisk fun d => { d with user := lowByte parameter &&& 0x1F }, Answer.success)

/-- Performs the call with a function number. -/
def perform (function : UInt8) (parameter : UInt16) (s : Station) : Station × UInt16 :=
  match ofFunction? function with
  | some call => call.execute parameter s
  | none => (s, Answer.failure)

end SystemCall

end Cpm80
