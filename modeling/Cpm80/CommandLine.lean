import Cpm80.Assembler.Assembly
import Cpm80.FileContent
import Cpm80.Station
import Cpm80.Text.Numeral

/-!
# The command line

A command is a word with arguments. Built-in commands work on the drives directly; any other
word names a program file, which is loaded and given its arguments in the places where
programs look for them. A file argument may carry the letter of a drive in front.
-/
namespace Cpm80

/-- What has to happen after a command line. -/
inductive CommandOutcome
  | done
  /-- The letter of a drive had to be shown that has none. -/
  | noLetter
  | run (entry : UInt16)
  | edit (drive : Nat) (name : String)
  | basic
  | exit
  deriving DecidableEq, Repr

inductive Command
  | directory
  | type
  | erase
  | rename
  | assemble
  | save
  | edit
  | basic
  | exit
  | help
  | switchDrive (letter : Char)
  | program (word : List Char)
  deriving DecidableEq, Repr

namespace Command

/-- The command that a word in upper case stands for. -/
def ofWord (word : List Char) : Command :=
  match String.ofList word with
  | "DIR" | "LS" => directory
  | "TYPE" | "CAT" => type
  | "ERA" | "DEL" | "RM" => erase
  | "REN" | "RENAME" => rename
  | "ASM" => assemble
  | "SAVE" => save
  | "ED" | "EDIT" => edit
  | "BASIC" => basic
  | "EXIT" | "QUIT" => exit
  | "HELP" | "?" => help
  | _ =>
    match word with
    | [letter, ':'] => if 'A' ≤ letter ∧ letter ≤ 'P' then switchDrive letter else program word
    | _ => program word

end Command

namespace CommandLine

/-- Where programs are loaded and started. -/
def programStart : UInt16 := 0x0100

/-- The file control block that the first argument is put into. -/
def defaultBlock : UInt16 := 0x005C

/-- The buffer that the arguments are put into. -/
def tailBuffer : UInt16 := 0x0080

/-- How many bytes of the arguments are kept. -/
def maxTail : Nat := 127

/-- The letter of a drive, whose code has eight bits. Of 256 drives in a row the last ones have
none, and then the letters start again. -/
def driveLetter? (index : Nat) : Option Char :=
  let code := 65 + index % 256
  if code < 256 then some (Char.ofNat code) else none

/-- The prompt shows the letter of the current drive. -/
def prompt? (d : DiskSystem) : Option String :=
  (driveLetter? d.current).map fun letter => String.ofList [letter, '>']

/-- The drive and the name that a file argument designates; nothing for a letter without a
drive. -/
def fileArgument? (d : DiskSystem) (argument : List Char) : Option (Nat × String) :=
  let argument := Text.upper (Text.trim argument)
  match argument with
  | letter :: ':' :: name =>
    if letter.toNat < 128 then
      if 65 ≤ letter.toNat ∧ letter.toNat - 65 < d.drives.length then
        some (letter.toNat - 65, String.ofList name)
      else none
    else some (d.current, String.ofList argument)
  | _ => some (d.current, String.ofList argument)

/-- One line of a directory listing: the name in its padded form. -/
def directoryLine (letter : Char) (name : String) : String :=
  let raw := FileName.padded name
  let base := Utf8.decodeLenient (raw.take 8)
  let extension := Utf8.decodeLenient (raw.drop 8)
  String.ofList ([letter, ':', ' '] ++ base ++ ' ' :: extension)

def listDirectory (argument : List Char) (s : Station) : Station × CommandOutcome :=
  match fileArgument? s.disk (if argument.isEmpty then ['*', '.', '*'] else argument) with
  | none => (s.printLine "NO DRIVE", .done)
  | some (drive, pattern) =>
    match s.disk.filesMatching drive (if pattern.isEmpty then "*.*" else pattern) with
    | [] => (s.printLine "NO FILE", .done)
    | names =>
      match driveLetter? drive with
      | none => (s, .noLetter)
      | some letter =>
        (names.foldl (fun s name => s.printLine (directoryLine letter name)) s, .done)

/-- Shows a file up to its end mark, and ends the line if the text does not. -/
def typeFile (argument : List Char) (s : Station) : Station :=
  if argument.isEmpty then s.printLine "USAGE: TYPE file"
  else
    match (fileArgument? s.disk argument).bind fun (drive, name) => s.disk.file? drive name with
    | none => s.printLine "NO FILE"
    | some content =>
      let text := TextFile.body content
      let s := s.onConsole fun c => c.putBytes text
      if text.getLast? = some lineFeed then s else s.onConsole Console.endLine

/-- Deletes files and reports the ones that cannot be deleted. -/
def eraseAll (drive : Nat) (s : Station) : List String → Station
  | [] => s
  | name :: rest =>
    match s.disk.drive? drive with
    | none => s
    | some target =>
      match target.delete name with
      | (target, none) => eraseAll drive (s.onDisk fun d => d.setDrive drive target) rest
      | (target, some e) =>
        let s := s.onDisk fun d => d.setDrive drive target
        eraseAll drive (s.printLine ("ERROR: " ++ e.message)) rest

def erase (argument : List Char) (s : Station) : Station :=
  if argument.isEmpty then s.printLine "USAGE: ERA pattern"
  else
    match fileArgument? s.disk argument with
    | none => s.printLine "NO DRIVE"
    | some (drive, pattern) =>
      match s.disk.filesMatching drive pattern with
      | [] => s.printLine "NO FILE"
      | names => eraseAll drive s names

/-- Renames a file on the drive that the new name designates. -/
def rename (argument : List Char) (s : Station) : Station :=
  match argument.dropWhile (· ≠ '=') with
  | [] => s.printLine "USAGE: REN new=old"
  | _ :: old =>
    match fileArgument? s.disk (argument.takeWhile (· ≠ '=')), fileArgument? s.disk old with
    | some (drive, new), some (_, old) =>
      match s.disk.drive? drive with
      | none => s.printLine "NO FILE"
      | some target =>
        let (target, e) := target.rename old new
        let s := s.onDisk fun d => d.setDrive drive target
        match e with
        | none => s
        | some (.notFound _) => s.printLine "NO FILE"
        | some (.alreadyExists _) => s.printLine "FILE EXISTS"
        | some e => s.printLine ("ERROR: " ++ e.message)
    | _, _ => s.printLine "NO DRIVE"

/-- Reports how saving a file went, if it went wrong. -/
def reportSaved (result : Option (Option DriveError)) (success : Station → Station)
    (s : Station) : Station :=
  match result with
  | some none => success s
  | some (some e) => s.printLine ("ERROR: " ++ e.message)
  | none => s.printLine "NO DRIVE"

/-- The file that starts at `programStart` and has the image at its origin. -/
def programFile (a : Assembly) : Array UInt8 :=
  Array.replicate (a.origin.toNat - programStart.toNat) 0 ++ a.image

/-- Assembles a source file into a program file of the same base name. -/
def assembleFile (argument : List Char) (s : Station) : Station :=
  if argument.isEmpty then s.printLine "USAGE: ASM file"
  else
    match fileArgument? s.disk argument with
    | none => s.printLine "NO DRIVE"
    | some (drive, name) =>
      let base := String.ofList (name.toList.takeWhile (· ≠ '.'))
      let sourceName := if name.toList.contains '.' then name else base ++ ".ASM"
      let outputName := base ++ ".COM"
      match s.disk.file? drive sourceName with
      | none => s.printLine "NO FILE"
      | some content =>
        let source := (Utf8.decodeLenient content.toList).takeWhile (· ≠ '\x1a')
        let a := Assembly.ofText source programStart
        let s := s.onUsage fun u => u.addAssembly a.isOk
        if !a.isOk then
          let s := a.diagnostics.foldl (fun s d => s.printLine d.text) s
          s.printLine (a.diagnostics.length.repr ++ " ERROR(S)")
        else if a.origin < programStart then s.printLine "ORG BELOW 0100H"
        else
          let file := programFile a
          let (d, result) := s.disk.saveFile drive outputName file
          reportSaved result
            (fun s => s.printLine (outputName ++ ": " ++ file.size.repr ++ " BYTES"))
            (s.onDisk fun _ => d)

/-- Whether a name can be given to a new file. -/
def isNewName (name : String) : Bool :=
  (FileName.normalize? name).isSome && FileName.isShort name

/-- Writes a number of pages of 256 bytes from `programStart` on to a file. -/
def saveMemory (argument : List Char) (s : Station) : Station :=
  match Text.words argument with
  | number :: file :: _ =>
    match Numeral.bounded? 255 number with
    | none => s.printLine "USAGE: SAVE pages file"
    | some pages =>
      match fileArgument? s.disk file with
      | none => s.printLine "NO DRIVE"
      | some (drive, name) =>
        if !isNewName name then s.printLine (name ++ "?")
        else
          match s.memory.dump programStart (pages * 256) with
          | .error e => s.printLine ("ERROR: " ++ e.message)
          | .ok image =>
            let (d, result) := s.disk.saveFile drive name image.toArray
            reportSaved result id (s.onDisk fun _ => d)
  | _ => s.printLine "USAGE: SAVE pages file"

def edit (argument : List Char) (s : Station) : Station × CommandOutcome :=
  let file := (Text.words argument).headD "UNTITLED".toList
  match fileArgument? s.disk file with
  | none => (s.printLine "NO DRIVE", .done)
  | some (drive, name) =>
    if isNewName name then (s, .edit drive name) else (s.printLine (name ++ "?"), .done)

def switchDrive (letter : Char) (s : Station) : Station :=
  match s.disk.select (letter.toNat - 65) with
  | .ok d => s.onDisk fun _ => d
  | .error _ => s.printLine (String.ofList ("NO DRIVE ".toList ++ [letter, ':']))

/-- The drive byte and the name that the first argument puts into the default block. -/
def firstArgument (tail : List Char) : UInt8 × List Char :=
  let first := (Text.words tail).headD []
  match first with
  | letter :: ':' :: name =>
    if 'A' ≤ letter ∧ letter ≤ 'Z' then (UInt8.ofNat (letter.toNat - 64), name) else (0, first)
  | _ => (0, first)

/-- Puts the arguments where a program looks for them: the first one as a file in the default
block, and all of them, with their length in front, in the tail buffer. -/
def prepareTail (m : Memory) (tail : List Char) : Memory :=
  let tail := Text.upper tail
  let (drive, name) := firstArgument tail
  let m := FileControlBlock.write m defaultBlock drive (String.ofList name)
  let text := if tail.isEmpty then [] else (Utf8.encode (' ' :: tail)).take maxTail
  m.place tailBuffer (UInt8.ofNat text.length :: text)

def programSuffix : List Char := ['.', 'C', 'O', 'M']

/-- The file that holds the program of a name, if the name can be one. -/
def programFileName? (name : String) : Option String :=
  let isFull := programSuffix.isSuffixOf name.toList
  if (FileName.normalize? name).isNone ∨ (name.toList.contains '.' ∧ !isFull) then none
  else some (if isFull then name else name ++ ".COM")

/-- Finds the program that a word names. -/
def findProgram? (d : DiskSystem) (word : List Char) : Option (Array UInt8) := do
  let (drive, name) ← fileArgument? d word
  let fileName ← programFileName? name
  d.file? drive fileName

def loadProgram (word tail : List Char) (s : Station) : Station × CommandOutcome :=
  match findProgram? s.disk word with
  | none => (s.printLine (String.ofList (word ++ ['?'])), .done)
  | some image =>
    let ⟨m, d, c, u⟩ := s
    match m.load programStart image.toList with
    | .error e => ((⟨m, d, c, u⟩ : Station).printLine ("ERROR: " ++ e.message), .done)
    | .ok m => (⟨prepareTail m tail, d, c, u⟩, .run programStart)

def help : List String :=
  ["Built-in commands:",
    "  DIR / LS [pattern]    list files",
    "  TYPE / CAT file       show a text file",
    "  ERA / DEL / RM pat    delete files",
    "  REN new=old           rename a file",
    "  ASM file              assemble FILE.ASM into FILE.COM",
    "  SAVE n file           save n pages from 0100H",
    "  ED / EDIT file        line editor",
    "  BASIC                 BASIC interpreter",
    "  EXIT / QUIT           end the session",
    "  X:                    switch to drive X",
    "  HELP / ?              this text",
    "Any other name runs NAME.COM."]

/-- Obeys one command. -/
def perform (command : Command) (tail : List Char) (s : Station) : Station × CommandOutcome :=
  match command with
  | .directory => listDirectory tail s
  | .type => (typeFile tail s, .done)
  | .erase => (erase tail s, .done)
  | .rename => (rename tail s, .done)
  | .assemble => (assembleFile tail s, .done)
  | .save => (saveMemory tail s, .done)
  | .edit => edit tail s
  | .basic => (s, .basic)
  | .exit => (s, .exit)
  | .help => (s.printLines help, .done)
  | .switchDrive letter => (switchDrive letter s, .done)
  | .program word => loadProgram word tail s

/-- Obeys a line as it was typed. -/
def execute (line : List Char) (s : Station) : Station × CommandOutcome :=
  let (word, tail) := Text.splitWord (Text.trim line)
  if word.isEmpty then (s, .done)
  else perform (Command.ofWord (Text.upper word)) (Text.trim tail) s

end CommandLine

end Cpm80
