import Cpm80.Proofs.Checked.Assembling
import Cpm80.Proofs.OpenSessions

/-!
# The command line, with every access checked

A command line is cut at its first blank, a file argument behind the letter of its drive. Drive
letters are sums and differences of eight bits, names are padded entry by entry, and blocks of
memory are copied between two addresses. Each of these accesses is checked. With one to sixteen
drives, of which one is current, every command line passes the checks; the text of a file may be
assembled as long as the assembler can count its bytes.
-/
namespace Cpm80

open Cpm80.Checked

/-! ## Padded names -/

namespace FileName.Checked

/-- Writes a part over a field of blanks, from entry `i` on. -/
def fillFrom (part : List UInt8) : (left i : Nat) → List UInt8 → Option (List UInt8)
  | 0, _, field => some field
  | left + 1, i, field =>
    match part[i]? with
    | none => some field
    | some c =>
      if c = 0x2A then do
        let front ← take? i field
        let back ← drop? i field
        some (front ++ back.map fun _ => 0x3F)
      else do
        let field ← set? i c field
        fillFrom part left (i + 1) field

def padded (name : String) : Option (List UInt8) := do
  let (base, extension) := splitAtLastDot (Text.upper (Text.trim name.toList))
  let raw := List.replicate 11 0x20
  let base ← fillFrom (Utf8.encode base) 8 0 (← take? 8 raw)
  let extension ← fillFrom (Utf8.encode extension) 3 0 (← drop? 8 raw)
  some (base ++ extension)

def isMatch (name pattern : String) : Option Bool := do
  let name ← padded name
  let pattern ← padded pattern
  some (paddedMatches name pattern)

/-- What has been written stays, and the rest of the field is filled as a field of its own. -/
theorem fillFrom_eq (written rest : List UInt8) (left : Nat) :
    fillFrom (written ++ rest) left written.length (written ++ List.replicate left 0x20) =
      some (written ++ fillField left rest) := by
  induction left generalizing written rest with
  | zero => rw [fillFrom, fillField, List.replicate_zero]
  | succ left ih =>
    rw [fillFrom]
    cases rest with
    | nil => simp [fillField]
    | cons c rest =>
      have hfirst : (written ++ c :: rest)[written.length]? = some c := by simp
      rw [hfirst]
      dsimp only
      rw [fillField]
      split
      case isTrue =>
        rw [take?_of_le (by simp), drop?_of_le (by simp), Option.bind_eq_bind, Option.bind_some,
          Option.bind_some, List.take_left, List.drop_left, List.map_replicate]
      case isFalse =>
        have hnext := ih (written ++ [c]) rest
        rw [List.append_assoc, List.append_assoc, List.append_assoc, List.length_append,
          List.length_singleton, List.singleton_append, List.singleton_append] at hnext
        rw [set?_of_lt (by simp), Option.bind_eq_bind, Option.bind_some, List.replicate_succ]
        simpa using hnext

theorem padded_eq (name : String) : padded name = some (FileName.padded name) := by
  have hfill (part : List UInt8) (width : Nat) :
      fillFrom part width 0 (List.replicate width 0x20) = some (fillField width part) :=
    fillFrom_eq [] part width
  have hbase : take? 8 (List.replicate 11 (0x20 : UInt8)) = some (List.replicate 8 0x20) := rfl
  have hextension : drop? 8 (List.replicate 11 (0x20 : UInt8)) = some (List.replicate 3 0x20) := rfl
  simp only [padded, FileName.padded, hbase, hextension, Option.bind_eq_bind, Option.bind_some,
    hfill]

theorem isMatch_eq (name pattern : String) :
    isMatch name pattern = some (FileName.isMatch name pattern) := by
  rw [isMatch, padded_eq, padded_eq]
  rfl

end FileName.Checked

namespace DiskSystem.Checked

def filesMatching (d : DiskSystem) (index : Nat) (pattern : String) : Option (List String) :=
  match d.drive? index with
  | some drive => sift (fun name => FileName.Checked.isMatch name pattern) drive.list
  | none => some []

theorem filesMatching_eq (d : DiskSystem) (index : Nat) (pattern : String) :
    filesMatching d index pattern = some (d.filesMatching index pattern) := by
  rw [filesMatching, DiskSystem.filesMatching]
  cases d.drive? index with
  | none => rfl
  | some drive =>
    simp only [FileName.Checked.isMatch_eq]
    exact sift_some _ _

end DiskSystem.Checked

/-! ## Blocks of memory -/

namespace Memory.Checked

/-- Copies a block into memory, of which it has to be a part. -/
def load (m : Memory) (a : UInt16) (bytes : List UInt8) : Option (Except OutOfBounds Memory) :=
  if Fits a bytes.length then do
    let rest ← drop? a.toNat m.cells.toList
    let _ ← take? bytes.length rest
    some (.ok (m.place a bytes))
  else some (.error ⟨a, bytes.length⟩)

/-- Copies a block out of memory, of which it has to be a part. -/
def dump (m : Memory) (a : UInt16) (length : Nat) :
    Option (Except OutOfBounds (List UInt8)) :=
  if Fits a length then do
    let rest ← drop? a.toNat m.cells.toList
    let block ← take? length rest
    some (.ok block)
  else some (.error ⟨a, length⟩)

/-- Writes bytes to the cells of the indices from `i` on. -/
def placeFrom (cell : Nat → Option UInt16) (m : Memory) (i : Nat) :
    List UInt8 → Option Memory
  | [] => some m
  | b :: rest => do
    let a ← cell i
    placeFrom cell (m.write a b) (i + 1) rest

theorem load_eq (m : Memory) (a : UInt16) (bytes : List UInt8) :
    load m a bytes = some (m.load a bytes) := by
  rw [load, Memory.load]
  split
  case isTrue hfits =>
    have hcells : m.cells.toList.length = 65536 := Vector.length_toList
    rw [Fits] at hfits
    rw [drop?_of_le (by omega), Option.bind_eq_bind, Option.bind_some,
      take?_of_le (by rw [List.length_drop]; omega), Option.bind_some]
  case isFalse => rfl

theorem take_drop_cells {m : Memory} {a : UInt16} {length : Nat}
    (h : a.toNat + length ≤ 65536) :
    (m.cells.toList.drop a.toNat).take length = m.slice a length := by
  have hcells : m.cells.toList.length = 65536 := Vector.length_toList
  apply List.ext_getElem
  · rw [List.length_take, List.length_drop, length_slice, hcells]
    omega
  · intro i hi _
    have hlt : i < length := by
      rw [List.length_take] at hi
      omega
    have haddress : (a + UInt16.ofNat i).toNat = a.toNat + i := by
      rw [UInt16.toNat_add, UInt16.toNat_ofNat', Nat.add_mod_mod, Nat.mod_eq_of_lt (by omega)]
    simp only [slice, List.getElem_take, List.getElem_drop, List.getElem_map, List.getElem_range,
      read, haddress, Vector.getElem_toList]

theorem dump_eq (m : Memory) (a : UInt16) (length : Nat) :
    dump m a length = some (m.dump a length) := by
  rw [dump, Memory.dump]
  split
  case isTrue hfits =>
    have hcells : m.cells.toList.length = 65536 := Vector.length_toList
    rw [Fits] at hfits
    rw [drop?_of_le (by omega), Option.bind_eq_bind, Option.bind_some,
      take?_of_le (by rw [List.length_drop]; omega), Option.bind_some]
    rw [take_drop_cells hfits]
  case isFalse => rfl

/-- If the cells of the indices lie behind one another, the bytes do. -/
theorem placeFrom_eq {cell : Nat → Option UInt16} {a : UInt16} {bound : Nat}
    (hcell : ∀ i < bound, cell i = some (a + UInt16.ofNat i)) (m : Memory) {bytes : List UInt8}
    (h : bytes.length ≤ bound) : placeFrom cell m 0 bytes = some (m.place a bytes) := by
  have hfrom : ∀ (bytes : List UInt8) (m : Memory) (i : Nat), i + bytes.length ≤ bound →
      placeFrom cell m i bytes = some (m.place (a + UInt16.ofNat i) bytes) := by
    intro bytes
    induction bytes with
    | nil => exact fun m i _ => rfl
    | cons b rest ih =>
      intro m i hlength
      rw [List.length_cons] at hlength
      rw [placeFrom, hcell i (by omega), Option.bind_eq_bind, Option.bind_some, ih _ _ (by omega),
        Memory.place, UInt16.add_assoc, UInt16.ofNat_add]
      rfl
  have hall := hfrom bytes m 0 (by omega)
  have hzero : a + UInt16.ofNat 0 = a := UInt16.add_zero a
  rwa [hzero] at hall

end Memory.Checked

/-! ## Letters of drives -/

namespace Text

/-- The text begins with a letter of one byte and a colon. -/
def HasLetter (s : List Char) : Prop :=
  ∃ letter rest, letter.toNat < 128 ∧ s = letter :: ':' :: rest

theorem byteAt?_one_eq_colon_iff {s : List Char} : byteAt? s 1 = some ':' ↔ HasLetter s :=
  byteAt?_one_eq_some_iff (by decide)

theorem size_letter {letter : Char} (h : letter.toNat < 128) : size [letter, ':'] = 2 := by
  rw [size_cons, utf8Size_of_lt h]
  rfl

theorem from?_two {letter : Char} (h : letter.toNat < 128) (rest : List Char) :
    from? 2 (letter :: ':' :: rest) = some rest :=
  size_letter h ▸ from?_size [letter, ':'] rest

end Text

/-! ## Commands -/

namespace Command.Checked

open Text

/-- Two bytes, a letter and a colon, switch the drive. -/
def driveSwitch? (word : List Char) : Option (Option Char) :=
  if size word = 2 then do
    let mark ← byteAt? word 1
    let letter ← byteAt? word 0
    some (if mark = ':' ∧ 'A' ≤ letter ∧ letter ≤ 'P' then some letter else none)
  else some none

def ofWord (word : List Char) : Option Command :=
  match Command.ofWord word with
  | .switchDrive _ | .program _ => do
    match ← driveSwitch? word with
    | some letter => some (.switchDrive letter)
    | none => some (.program word)
  | builtIn => some builtIn

/-- The letter in front of a colon. -/
def switched? : List Char → Option Char
  | [letter, ':'] => if 'A' ≤ letter ∧ letter ≤ 'P' then some letter else none
  | _ => none

theorem driveSwitch?_eq (word : List Char) : driveSwitch? word = some (switched? word) := by
  rw [driveSwitch?]
  by_cases hletter : ∃ letter, letter.toNat < 128 ∧ word = [letter, ':']
  case pos =>
    obtain ⟨letter, hascii, rfl⟩ := hletter
    rw [if_pos (size_letter hascii), byteAt?_one_eq_colon_iff.mpr ⟨letter, [], hascii, rfl⟩,
      byteAt?_zero hascii]
    simp [switched?]
  case neg =>
    have hnone : switched? word = none := by
      unfold switched?
      split
      case h_1 letter =>
        refine if_neg fun hrange => hletter ⟨letter, ?_, rfl⟩
        have hle : letter.toNat ≤ 80 := hrange.2
        omega
      case h_2 => rfl
    rw [hnone]
    split
    case isTrue hsize =>
      have hone : 1 < size word := by omega
      obtain ⟨mark, hmark⟩ := exists_byteAt? hone
      obtain ⟨letter, hfirst⟩ := exists_byteAt? (Nat.zero_lt_of_lt hone)
      have hne : mark ≠ ':' := by
        rintro rfl
        obtain ⟨first, rest, hascii, rfl⟩ := byteAt?_one_eq_colon_iff.mp hmark
        have hcolonSize : Char.utf8Size ':' = 1 := rfl
        have hlength := length_le_size rest
        rw [size_cons, size_cons, utf8Size_of_lt hascii, hcolonSize] at hsize
        obtain rfl : rest = [] := List.eq_nil_of_length_eq_zero (by omega)
        exact hletter ⟨first, hascii, rfl⟩
      simp [hmark, hfirst, hne]
    case isFalse => rfl

/-- A word that is no built-in command switches the drive or names a program. -/
theorem ofWord_eq_elim {word : List Char} {command : Command}
    (h : Command.ofWord word = command)
    (hother : (∃ letter, command = .switchDrive letter) ∨ ∃ word, command = .program word) :
    command = (switched? word).elim (.program word) .switchDrive := by
  unfold Command.ofWord at h
  split at h
  case h_19 =>
    subst h
    split
    case h_1 letter =>
      rw [switched?]
      split <;> rfl
    case h_2 hne => rw [switched?.eq_2 word hne, Option.elim_none]
  all_goals
    subst h
    simp at hother

theorem ofWord_eq (word : List Char) : ofWord word = some (Command.ofWord word) := by
  rw [ofWord, driveSwitch?_eq]
  split
  case h_1 letter hword =>
    rw [hword, ofWord_eq_elim hword (.inl ⟨letter, rfl⟩)]
    cases switched? word <;> rfl
  case h_2 other hword =>
    rw [hword, ofWord_eq_elim hword (.inr ⟨other, rfl⟩)]
    cases switched? word <;> rfl
  case h_3 => rfl

theorem le_of_ofWord {word : List Char} {letter : Char}
    (h : Command.ofWord word = .switchDrive letter) : 65 ≤ letter.toNat := by
  have hswitch := ofWord_eq_elim h (.inl ⟨letter, rfl⟩)
  unfold switched? at hswitch
  split at hswitch
  · split at hswitch
    case isTrue hrange =>
      cases hswitch
      exact hrange.1
    case isFalse => cases hswitch
  · cases hswitch

end Command.Checked

namespace CommandLine.Checked

open Text DiskSystem.Checked

def driveLetter (index : Nat) : Option Char := do
  let code ← add? 8 65 (index % 256)
  some (Char.ofNat code)

def prompt (d : DiskSystem) : Option String := do
  let letter ← driveLetter d.current
  some (String.ofList [letter, '>'])

def fileArgument? (d : DiskSystem) (argument : List Char) : Option (Option (Nat × String)) :=
  let argument := upper (trim argument)
  if 2 ≤ size argument then do
    let mark ← byteAt? argument 1
    if mark = ':' then do
      let letter ← byteAt? argument 0
      if 65 ≤ letter.toNat then do
        let index ← sub? letter.toNat 65
        if index < d.drives.length then do
          let name ← from? 2 argument
          some (some (index, String.ofList name))
        else some none
      else some none
    else some (some (d.current, String.ofList argument))
  else some (some (d.current, String.ofList argument))

def directoryLine (drive : Nat) (name : String) : Option String := do
  let raw ← FileName.Checked.padded name
  let letter ← driveLetter drive
  let base ← take? 8 raw
  let extension ← drop? 8 raw
  some (String.ofList ([letter, ':', ' '] ++ Utf8.decodeLenient base ++
    ' ' :: Utf8.decodeLenient extension))

def listDirectory (argument : List Char) (s : Station) : Option (Station × CommandOutcome) := do
  match ← fileArgument? s.disk (if argument.isEmpty then ['*', '.', '*'] else argument) with
  | none => some (s.printLine "NO DRIVE", .done)
  | some (drive, pattern) =>
    match ← filesMatching s.disk drive (if pattern.isEmpty then "*.*" else pattern) with
    | [] => some (s.printLine "NO FILE", .done)
    | names => do
      let s ← names.foldlM (fun s name => (directoryLine drive name).map s.printLine) s
      some (s, .done)

def typeFile (argument : List Char) (s : Station) : Option Station :=
  if argument.isEmpty then some (s.printLine "USAGE: TYPE file")
  else do
    let file ← fileArgument? s.disk argument
    match file.bind fun (drive, name) => s.disk.file? drive name with
    | none => some (s.printLine "NO FILE")
    | some content =>
      let text := TextFile.body content
      let s := s.onConsole fun c => c.putBytes text
      some (if text.getLast? = some lineFeed then s else s.onConsole Console.endLine)

def erase (argument : List Char) (s : Station) : Option Station :=
  if argument.isEmpty then some (s.printLine "USAGE: ERA pattern")
  else do
    match ← fileArgument? s.disk argument with
    | none => some (s.printLine "NO DRIVE")
    | some (drive, pattern) =>
      match ← filesMatching s.disk drive pattern with
      | [] => some (s.printLine "NO FILE")
      | names => some (eraseAll drive s names)

def rename (argument : List Char) (s : Station) : Option Station :=
  match argument.dropWhile (· ≠ '=') with
  | [] => some (s.printLine "USAGE: REN new=old")
  | _ :: old => do
    match ← fileArgument? s.disk (argument.takeWhile (· ≠ '=')), ← fileArgument? s.disk old with
    | some (drive, new), some (_, old) =>
      match s.disk.drive? drive with
      | none => some (s.printLine "NO FILE")
      | some target =>
        let (target, e) := target.rename old new
        let s := s.onDisk fun d => d.setDrive drive target
        match e with
        | none => some s
        | some (.notFound _) => some (s.printLine "NO FILE")
        | some (.alreadyExists _) => some (s.printLine "FILE EXISTS")
        | some e => some (s.printLine ("ERROR: " ++ e.message))
    | _, _ => some (s.printLine "NO DRIVE")

def programFile (a : Assembly) : Option (Array UInt8) := do
  let gap ← sub? a.origin.toNat programStart.toNat
  some (Array.replicate gap 0 ++ a.image)

/-- The text that is assembled of a file. -/
def sourceOf (content : Array UInt8) : List Char :=
  (Utf8.decodeLenient content.toList).takeWhile (· ≠ '\x1a')

def assembleFile (argument : List Char) (s : Station) : Option Station :=
  if argument.isEmpty then some (s.printLine "USAGE: ASM file")
  else do
    match ← fileArgument? s.disk argument with
    | none => some (s.printLine "NO DRIVE")
    | some (drive, name) =>
      let base := String.ofList (name.toList.takeWhile (· ≠ '.'))
      let sourceName := if name.toList.contains '.' then name else base ++ ".ASM"
      let outputName := base ++ ".COM"
      match s.disk.file? drive sourceName with
      | none => some (s.printLine "NO FILE")
      | some content => do
        let a ← Assembler.Checked.ofText (sourceOf content) programStart
        let s := s.onUsage fun u => u.addAssembly a.isOk
        if !a.isOk then
          let s := a.diagnostics.foldl (fun s d => s.printLine d.text) s
          some (s.printLine (a.diagnostics.length.repr ++ " ERROR(S)"))
        else if a.origin < programStart then some (s.printLine "ORG BELOW 0100H")
        else do
          let file ← programFile a
          let (d, result) := s.disk.saveFile drive outputName file
          some (reportSaved result
            (fun s => s.printLine (outputName ++ ": " ++ file.size.repr ++ " BYTES"))
            (s.onDisk fun _ => d))

def saveMemory (argument : List Char) (s : Station) : Option Station :=
  match Text.words argument with
  | number :: file :: _ =>
    match Numeral.bounded? 255 number with
    | none => some (s.printLine "USAGE: SAVE pages file")
    | some pages => do
      match ← fileArgument? s.disk file with
      | none => some (s.printLine "NO DRIVE")
      | some (drive, name) =>
        if !isNewName name then some (s.printLine (name ++ "?"))
        else do
          match ← Memory.Checked.dump s.memory programStart (pages * 256) with
          | .error e => some (s.printLine ("ERROR: " ++ e.message))
          | .ok image =>
            let (d, result) := s.disk.saveFile drive name image.toArray
            some (reportSaved result id (s.onDisk fun _ => d))
  | _ => some (s.printLine "USAGE: SAVE pages file")

def edit (argument : List Char) (s : Station) : Option (Station × CommandOutcome) := do
  let file := (Text.words argument).headD "UNTITLED".toList
  match ← fileArgument? s.disk file with
  | none => some (s.printLine "NO DRIVE", .done)
  | some (drive, name) =>
    some (if isNewName name then (s, .edit drive name) else (s.printLine (name ++ "?"), .done))

def switchDrive (letter : Char) (s : Station) : Option Station := do
  let index ← sub? letter.toNat 65
  match s.disk.select index with
  | .ok d => some (s.onDisk fun _ => d)
  | .error _ => some (s.printLine (String.ofList ("NO DRIVE ".toList ++ [letter, ':'])))

/-- The letter in front of the first argument is seen by its two first bytes. -/
def firstArgument (tail : List Char) : Option (UInt8 × List Char) :=
  let first := (Text.words tail).headD []
  match byteAt? first 0, byteAt? first 1 with
  | some letter, some ':' =>
    if 'A' ≤ letter ∧ letter ≤ 'Z' then do
      let index ← sub? letter.toNat 65
      let drive ← add? 8 index 1
      let name ← from? 2 first
      some (UInt8.ofNat drive, name)
    else some (0, first)
  | _, _ => some (0, first)

/-- Makes the block name a file. -/
def writeBlock (m : Memory) (fcb : UInt16) (drive : UInt8) (name : String) : Option Memory := do
  let raw ← FileName.Checked.padded name
  let m ← Memory.Checked.placeFrom
    (fun i => (add? 16 FileControlBlock.nameOffset.toNat i).map fun o => fcb + UInt16.ofNat o)
    (m.write fcb drive) 0 raw
  some (FileControlBlock.setPosition m fcb 0 0)

def prepareTail (m : Memory) (tail : List Char) : Option Memory := do
  let tail := upper tail
  let (drive, name) ← firstArgument tail
  let m ← writeBlock m defaultBlock drive (String.ofList name)
  let text := if tail.isEmpty then [] else Utf8.encode (' ' :: tail)
  let kept ← take? (min text.length maxTail) text
  let first ← add? 16 tailBuffer.toNat 1
  Memory.Checked.placeFrom (fun i => (add? 16 first i).map UInt16.ofNat)
    (m.write tailBuffer (UInt8.ofNat kept.length)) 0 kept

def findProgram? (d : DiskSystem) (word : List Char) : Option (Option (Array UInt8)) := do
  let file ← fileArgument? d word
  some do
    let (drive, name) ← file
    let fileName ← programFileName? name
    d.file? drive fileName

def loadProgram (word tail : List Char) (s : Station) : Option (Station × CommandOutcome) := do
  match ← findProgram? s.disk word with
  | none => some (s.printLine (String.ofList (word ++ ['?'])), .done)
  | some image => do
    let ⟨m, d, c, u⟩ := s
    match ← Memory.Checked.load m programStart image.toList with
    | .error e => some ((⟨m, d, c, u⟩ : Station).printLine ("ERROR: " ++ e.message), .done)
    | .ok m => do
      let m ← prepareTail m tail
      some (⟨m, d, c, u⟩, .run programStart)

def perform (command : Command) (tail : List Char) (s : Station) :
    Option (Station × CommandOutcome) :=
  match command with
  | .directory => listDirectory tail s
  | .type => (typeFile tail s).map (·, .done)
  | .erase => (erase tail s).map (·, .done)
  | .rename => (rename tail s).map (·, .done)
  | .assemble => (assembleFile tail s).map (·, .done)
  | .save => (saveMemory tail s).map (·, .done)
  | .edit => edit tail s
  | .basic => some (s, .basic)
  | .exit => some (s, .exit)
  | .help => some (s.printLines help, .done)
  | .switchDrive letter => (switchDrive letter s).map (·, .done)
  | .program word => loadProgram word tail s

def execute (line : List Char) (s : Station) : Option (Station × CommandOutcome) := do
  let (word, tail) ← Text.Checked.splitWord (trim line)
  if word.isEmpty then some (s, .done)
  else do
    let command ← Command.Checked.ofWord (upper word)
    perform command (trim tail) s

/-! ## What they do -/

section

variable {d : DiskSystem} {s : Station}

theorem driveLetter_eq {index : Nat} (h : index < 16) :
    driveLetter index = some (Char.ofNat (65 + index)) ∧
      driveLetter? index = some (Char.ofNat (65 + index)) := by
  have hindex : index % 256 = index := Nat.mod_eq_of_lt (by omega)
  have hcode : 65 + index < 256 := by omega
  constructor
  · rw [driveLetter, hindex, add?_of_lt hcode]
    rfl
  · rw [driveLetter?, hindex]
    exact if_pos hcode

theorem prompt_eq (h : d.Equipped) : prompt d = prompt? d := by
  obtain ⟨hchecked, hletter⟩ := driveLetter_eq (Nat.lt_of_lt_of_le h.current h.atMost)
  rw [prompt, prompt?, hchecked, hletter]
  rfl

theorem fileArgument?_eq (d : DiskSystem) (argument : List Char) :
    fileArgument? d argument = some (CommandLine.fileArgument? d argument) := by
  rw [fileArgument?]
  generalize ht : upper (trim argument) = t
  by_cases hletter : HasLetter t
  case pos =>
    have hmark := byteAt?_one_eq_colon_iff.mpr hletter
    obtain ⟨letter, name, hascii, rfl⟩ := hletter
    have hsize : 2 ≤ size (letter :: ':' :: name) := by
      rw [← size_letter hascii]
      exact size_le_of_sublist (List.sublist_append_left [letter, ':'] name)
    rw [if_pos hsize, hmark, Option.bind_eq_bind, Option.bind_some, if_pos rfl,
      byteAt?_zero hascii, Option.bind_some, CommandLine.fileArgument?, ht]
    change _ = some (if letter.toNat < 128 then
      if 65 ≤ letter.toNat ∧ letter.toNat - 65 < d.drives.length then
        some (letter.toNat - 65, String.ofList name)
      else none
      else some (d.current, String.ofList (letter :: ':' :: name)))
    rw [if_pos hascii]
    by_cases hlow : 65 ≤ letter.toNat
    · simp only [hlow, sub?_of_le hlow, from?_two hascii, Option.bind_eq_bind, Option.bind_some,
        if_true, true_and]
      split <;> rfl
    · rw [if_neg hlow, if_neg fun h => hlow h.1]
  case neg =>
    have hcurrent : CommandLine.fileArgument? d argument =
        some (d.current, String.ofList t) := by
      rw [CommandLine.fileArgument?, ht]
      split
      case h_1 letter name =>
        rw [if_neg fun hascii => hletter ⟨letter, name, hascii, rfl⟩]
      case h_2 => rfl
    rw [hcurrent]
    split
    case isTrue hsize =>
      obtain ⟨mark, hmark⟩ := exists_byteAt? (Nat.lt_of_lt_of_le Nat.one_lt_two hsize)
      have hne : mark ≠ ':' := fun h => hletter (byteAt?_one_eq_colon_iff.mp (h ▸ hmark))
      rw [hmark, Option.bind_eq_bind, Option.bind_some, if_neg hne]
    case isFalse => rfl

theorem directoryLine_eq {drive : Nat} (h : drive < 16) (name : String) :
    directoryLine drive name =
      some (CommandLine.directoryLine (Char.ofNat (65 + drive)) name) := by
  have hlength : 8 ≤ (FileName.padded name).length := by
    rw [FileName.length_padded]
    decide
  simp only [directoryLine, FileName.Checked.padded_eq, (driveLetter_eq h).1, take?_of_le hlength,
    drop?_of_le hlength, Option.bind_eq_bind, Option.bind_some]
  rfl

theorem listDirectory_eq (h : s.disk.Equipped) (argument : List Char) :
    listDirectory argument s = some (CommandLine.listDirectory argument s) := by
  rw [listDirectory, CommandLine.listDirectory, fileArgument?_eq, Option.bind_eq_bind,
    Option.bind_some]
  cases hfile : CommandLine.fileArgument? s.disk
      (if argument.isEmpty then ['*', '.', '*'] else argument) with
  | none => rfl
  | some file =>
    obtain ⟨drive, pattern⟩ := file
    have hdrive : drive < 16 := Nat.lt_of_lt_of_le (lt_of_fileArgument? h hfile) h.atMost
    simp only [filesMatching_eq, Option.bind_eq_bind, Option.bind_some]
    cases s.disk.filesMatching drive (if pattern.isEmpty then "*.*" else pattern) with
    | nil => rfl
    | cons name rest =>
      simp only [directoryLine_eq hdrive, (driveLetter_eq hdrive).2, Option.map_some,
        foldlM_some, Option.bind_some]

theorem typeFile_eq (argument : List Char) (s : Station) :
    typeFile argument s = some (CommandLine.typeFile argument s) := by
  rw [typeFile, CommandLine.typeFile, fileArgument?_eq, Option.bind_eq_bind, Option.bind_some]
  split
  · rfl
  · cases (CommandLine.fileArgument? s.disk argument).bind fun (drive, name) =>
        s.disk.file? drive name <;> rfl

theorem erase_eq (argument : List Char) (s : Station) :
    erase argument s = some (CommandLine.erase argument s) := by
  rw [erase, CommandLine.erase, fileArgument?_eq, Option.bind_eq_bind, Option.bind_some]
  split
  · rfl
  · cases CommandLine.fileArgument? s.disk argument with
    | none => rfl
    | some file =>
      simp only [filesMatching_eq, Option.bind_eq_bind, Option.bind_some]
      cases s.disk.filesMatching file.1 file.2 <;> rfl

theorem rename_eq (argument : List Char) (s : Station) :
    rename argument s = some (CommandLine.rename argument s) := by
  rw [rename, CommandLine.rename]
  cases argument.dropWhile (· ≠ '=') with
  | nil => rfl
  | cons mark old =>
    simp only [fileArgument?_eq, Option.bind_eq_bind, Option.bind_some]
    rcases CommandLine.fileArgument? s.disk (argument.takeWhile (· ≠ '=')) with _ | new
    · rfl
    · rcases CommandLine.fileArgument? s.disk old with _ | old
      · rfl
      · dsimp only
        cases s.disk.drive? new.1 with
        | none => rfl
        | some target =>
          dsimp only
          rcases (target.rename old.2 new.2).2 with _ | e
          · rfl
          · cases e <;> rfl

theorem programFile_eq {a : Assembly} (h : programStart ≤ a.origin) :
    programFile a = some (CommandLine.programFile a) := by
  rw [programFile, sub?_of_le (UInt16.le_iff_toNat_le.mp h)]
  rfl

/-- The text that `ASM` assembles, if there is a file for its argument. -/
def assembled? (argument : List Char) (d : DiskSystem) : Option (List Char) :=
  if argument.isEmpty then none
  else do
    let (drive, name) ← CommandLine.fileArgument? d argument
    let base := String.ofList (name.toList.takeWhile (· ≠ '.'))
    let content ← d.file? drive (if name.toList.contains '.' then name else base ++ ".ASM")
    some (sourceOf content)

/-- The text that a line makes the command line assemble. -/
def assembledBy? (line : List Char) (d : DiskSystem) : Option (List Char) :=
  let (word, tail) := Text.splitWord (Text.trim line)
  match Command.ofWord (Text.upper word) with
  | .assemble => assembled? (Text.trim tail) d
  | _ => none

theorem assembleFile_eq {argument : List Char}
    (hcountable : ∀ text, assembled? argument s.disk = some text → Assembly.IsCountable text) :
    assembleFile argument s = some (CommandLine.assembleFile argument s) := by
  rw [assembled?] at hcountable
  rw [assembleFile, CommandLine.assembleFile, fileArgument?_eq]
  split
  · rfl
  case isFalse hsome =>
    rw [if_neg hsome] at hcountable
    rw [Option.bind_eq_bind, Option.bind_some]
    cases hfile : CommandLine.fileArgument? s.disk argument with
    | none => rfl
    | some file =>
      obtain ⟨drive, name⟩ := file
      rw [hfile] at hcountable
      dsimp only [Option.bind_eq_bind, Option.bind_some] at hcountable ⊢
      cases hcontent : s.disk.file? drive (if name.toList.contains '.' then name
          else String.ofList (name.toList.takeWhile (· ≠ '.')) ++ ".ASM") with
      | none => rfl
      | some content =>
        rw [hcontent] at hcountable
        have hsource := Assembler.Checked.ofText_eq (hcountable _ rfl) programStart
        rw [sourceOf] at hsource
        simp only [sourceOf, hsource, Option.bind_some]
        generalize Assembly.ofText _ programStart = a
        split
        · rfl
        · split
          · rfl
          case isFalse hok horigin =>
            simp only [programFile_eq (UInt16.not_lt.mp horigin), Option.bind_some]

theorem saveMemory_eq (argument : List Char) (s : Station) :
    saveMemory argument s = some (CommandLine.saveMemory argument s) := by
  rw [saveMemory, CommandLine.saveMemory]
  rcases Text.words argument with _ | ⟨number, _ | ⟨file, rest⟩⟩
  · rfl
  · rfl
  · dsimp only
    cases Numeral.bounded? 255 number with
    | none => rfl
    | some pages =>
      simp only [fileArgument?_eq, Memory.Checked.dump_eq, Option.bind_eq_bind, Option.bind_some]
      cases CommandLine.fileArgument? s.disk file with
      | none => rfl
      | some file =>
        dsimp only
        split
        · rfl
        · cases s.memory.dump programStart (pages * 256) <;> rfl

theorem edit_eq (argument : List Char) (s : Station) :
    edit argument s = some (CommandLine.edit argument s) := by
  rw [edit, CommandLine.edit, fileArgument?_eq, Option.bind_eq_bind, Option.bind_some]
  cases CommandLine.fileArgument? s.disk ((Text.words argument).headD "UNTITLED".toList) with
  | none => rfl
  | some file => simp only [apply_ite some]

theorem switchDrive_eq {letter : Char} (h : 65 ≤ letter.toNat) (s : Station) :
    switchDrive letter s = some (CommandLine.switchDrive letter s) := by
  rw [switchDrive, CommandLine.switchDrive, sub?_of_le h, Option.bind_eq_bind, Option.bind_some]
  cases s.disk.select (letter.toNat - 65) <;> rfl

theorem findProgram?_eq (d : DiskSystem) (word : List Char) :
    findProgram? d word = some (CommandLine.findProgram? d word) := by
  rw [findProgram?, CommandLine.findProgram?, fileArgument?_eq]
  rfl

theorem firstArgument_eq (tail : List Char) :
    firstArgument tail = some (CommandLine.firstArgument tail) := by
  rw [firstArgument]
  generalize hfirst : (Text.words tail).headD [] = first
  by_cases hletter : HasLetter first
  case pos =>
    have hmark := byteAt?_one_eq_colon_iff.mpr hletter
    obtain ⟨letter, name, hascii, rfl⟩ := hletter
    rw [hmark, byteAt?_zero hascii, CommandLine.firstArgument, hfirst]
    change (if 'A' ≤ letter ∧ letter ≤ 'Z' then _ else _) =
      some (if 'A' ≤ letter ∧ letter ≤ 'Z' then (UInt8.ofNat (letter.toNat - 64), name)
        else (0, letter :: ':' :: name))
    split
    case isTrue hcapital =>
      have hlow : 65 ≤ letter.toNat := hcapital.1
      have hsum : letter.toNat - 65 + 1 < 2 ^ 8 := by omega
      have hdrive : letter.toNat - 65 + 1 = letter.toNat - 64 := by omega
      simp only [sub?_of_le hlow, add?_of_lt hsum, from?_two hascii, hdrive, Option.bind_eq_bind,
        Option.bind_some]
    case isFalse => rfl
  case neg =>
    have hmark : byteAt? first 1 ≠ some ':' := mt byteAt?_one_eq_colon_iff.mp hletter
    have hnone : CommandLine.firstArgument tail = (0, first) := by
      rw [CommandLine.firstArgument, hfirst]
      split
      case h_1 letter name =>
        refine if_neg fun hrange => hletter ⟨letter, name, ?_, rfl⟩
        have hle : letter.toNat ≤ 90 := hrange.2
        omega
      case h_2 => rfl
    split
    case h_1 letter hfirst hcolon => exact absurd hcolon hmark
    case h_2 => exact congrArg some hnone.symm

theorem writeBlock_eq (m : Memory) (fcb : UInt16) (drive : UInt8) (name : String) :
    writeBlock m fcb drive name = some (FileControlBlock.write m fcb drive name) := by
  have hcell : ∀ i < 11, ((add? 16 FileControlBlock.nameOffset.toNat i).map fun o =>
      fcb + UInt16.ofNat o) = some (fcb + FileControlBlock.nameOffset + UInt16.ofNat i) := by
    intro i hi
    have hsum : FileControlBlock.nameOffset.toNat + i < 2 ^ 16 := by
      have hoffset : FileControlBlock.nameOffset.toNat = 1 := rfl
      omega
    rw [add?_of_lt hsum, Option.map_some, UInt16.add_assoc, UInt16.ofNat_add, UInt16.ofNat_toNat]
  have hlength : (FileName.padded name).length ≤ 11 := Nat.le_of_eq (FileName.length_padded name)
  simp only [writeBlock, FileControlBlock.write, FileName.Checked.padded_eq, Option.bind_eq_bind,
    Option.bind_some, Memory.Checked.placeFrom_eq hcell _ hlength]

theorem prepareTail_eq (m : Memory) (tail : List Char) :
    prepareTail m tail = some (CommandLine.prepareTail m tail) := by
  have hcell : ∀ i < maxTail, (add? 16 (tailBuffer.toNat + 1) i).map UInt16.ofNat =
      some (tailBuffer + 1 + UInt16.ofNat i) := by
    intro i hi
    have hsum : tailBuffer.toNat + 1 + i < 2 ^ 16 := by
      have hbuffer : tailBuffer.toNat = 128 := rfl
      rw [maxTail] at hi
      omega
    rw [add?_of_lt hsum, Option.map_some, UInt16.ofNat_add]
    rfl
  have hfirst : add? 16 tailBuffer.toNat 1 = some (tailBuffer.toNat + 1) := rfl
  have hkept (text : List UInt8) : take? (min text.length maxTail) text =
      some (text.take maxTail) := by
    rw [take?_of_le (Nat.min_le_left _ _), Nat.min_comm, ← List.take_eq_take_min]
  have hlength (text : List UInt8) : (text.take maxTail).length ≤ maxTail :=
    List.length_take_le _ _
  simp only [prepareTail, CommandLine.prepareTail, firstArgument_eq, writeBlock_eq, hkept, hfirst,
    Option.bind_eq_bind, Option.bind_some, Memory.Checked.placeFrom_eq hcell _ (hlength _),
    Memory.place]
  split <;> rfl

theorem loadProgram_eq (word tail : List Char) (s : Station) :
    loadProgram word tail s = some (CommandLine.loadProgram word tail s) := by
  rw [loadProgram, CommandLine.loadProgram, findProgram?_eq, Option.bind_eq_bind, Option.bind_some]
  cases CommandLine.findProgram? s.disk word with
  | none => rfl
  | some image =>
    obtain ⟨m, d, c, u⟩ := s
    simp only [Memory.Checked.load_eq, Option.bind_eq_bind, Option.bind_some]
    cases m.load programStart image.toList with
    | error e => rfl
    | ok m => simp only [prepareTail_eq, Option.bind_some]

theorem perform_eq (hequipped : s.disk.Equipped) {command : Command} {tail : List Char}
    (hcountable : command = .assemble →
      ∀ text, assembled? tail s.disk = some text → Assembly.IsCountable text)
    (hletter : ∀ letter, command = .switchDrive letter → 65 ≤ letter.toNat) :
    perform command tail s = some (CommandLine.perform command tail s) := by
  cases command with
  | directory => exact listDirectory_eq hequipped tail
  | type => rw [perform, typeFile_eq]; rfl
  | erase => rw [perform, erase_eq]; rfl
  | rename => rw [perform, rename_eq]; rfl
  | assemble => rw [perform, assembleFile_eq (hcountable rfl)]; rfl
  | save => rw [perform, saveMemory_eq]; rfl
  | edit => exact edit_eq tail s
  | switchDrive letter => rw [perform, switchDrive_eq (hletter letter rfl)]; rfl
  | program word => exact loadProgram_eq word tail s
  | basic | exit | help => rfl

theorem execute_eq (hequipped : s.disk.Equipped) {line : List Char}
    (hcountable : ∀ text, assembledBy? line s.disk = some text → Assembly.IsCountable text) :
    execute line s = some (CommandLine.execute line s) := by
  rw [execute, CommandLine.execute, Text.Checked.splitWord_eq]
  rw [assembledBy?] at hcountable
  generalize Text.splitWord (Text.trim line) = parts at hcountable ⊢
  obtain ⟨word, tail⟩ := parts
  simp only [Option.bind_eq_bind, Option.bind_some]
  split
  · rfl
  · rw [Command.Checked.ofWord_eq, Option.bind_some]
    refine perform_eq hequipped ?_ (fun letter => Command.Checked.le_of_ofWord)
    intro hassemble text htext
    apply hcountable text
    dsimp only at hassemble ⊢
    rw [hassemble]
    exact htext

end

end CommandLine.Checked

end Cpm80
