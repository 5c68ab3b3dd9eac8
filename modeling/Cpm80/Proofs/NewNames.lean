import Cpm80.Basic.Interpreter
import Cpm80.LineEditor
import Cpm80.Proofs.DiskCalls
import Cpm80.Proofs.ProgramFiles
import Cpm80.Proofs.ShortNames

/-!
# Names that files are given

A file gets its name from a program, by a call that makes or renames one, from the command line,
from the editor or from BASIC. The command line looks at a name before it saves memory or opens
the editor under it, and a program file has the base name of its source. The calls, the command
that renames a file and the one by which BASIC saves a program take the name as it is. If such
names fit, then on drives with short names they all leave nothing but short names.
-/
namespace Cpm80

/-! ## Disk systems -/

namespace DiskSystem

open FileName

variable {d e : DiskSystem} {m : Memory} {fcb : UInt16} {index : Nat} {drive new : Drive}
  {name : String}

/-- Every name on every drive is short. -/
def Short (d : DiskSystem) : Prop :=
  ∀ drive ∈ d.drives, drive.Short

theorem Short.of_drives_eq (h : d.Short) (heq : e.drives = d.drives) : e.Short := by
  rw [Short, heq]
  exact h

theorem Short.drive? (h : d.Short) (hdrive : d.drive? index = some drive) : drive.Short :=
  h drive (List.mem_of_getElem? hdrive)

theorem Short.selected? (h : d.Short) (hselected : d.selected? m fcb = some (index, drive)) :
    drive.Short :=
  h.drive? (drive?_of_selected? hselected)

theorem Short.setDrive (h : d.Short) (hnew : new.Short) (index : Nat) :
    (d.setDrive index new).Short := by
  intro other hother
  rcases List.mem_or_eq_of_mem_set hother with hstays | rfl
  · exact h other hstays
  · exact hnew

theorem Short.saveFile (h : d.Short) (hname : Fits name) (index : Nat) (content : Array UInt8) :
    (d.saveFile index name content).1.Short := by
  rw [DiskSystem.saveFile]
  split
  case h_1 drive hdrive => exact h.setDrive ((h.drive? hdrive).save hname content) index
  case h_2 => exact h

/-! ### Calls that leave the drives alone -/

theorem drives_openFile (d : DiskSystem) (m : Memory) (fcb : UInt16) :
    (d.openFile m fcb).disk.drives = d.drives := by
  rw [openFile]
  split
  case h_1 => rfl
  case h_2 => split <;> rfl

theorem drives_closeFile (d : DiskSystem) (m : Memory) (fcb : UInt16) :
    (d.closeFile m fcb).disk.drives = d.drives := by
  rw [closeFile]
  split
  case h_1 => rfl
  case h_2 => split <;> rfl

theorem drives_searchNext (d : DiskSystem) (m : Memory) :
    (d.searchNext m).disk.drives = d.drives := by
  rw [searchNext]
  split <;> rfl

theorem drives_searchFirst (d : DiskSystem) (m : Memory) (fcb : UInt16) :
    (d.searchFirst m fcb).disk.drives = d.drives := by
  rw [searchFirst]
  split
  case h_1 => rfl
  case h_2 => exact drives_searchNext _ m

theorem drives_readSequential (d : DiskSystem) (m : Memory) (fcb : UInt16) :
    (d.readSequential m fcb).disk.drives = d.drives := by
  rw [readSequential]
  split
  case h_1 => rfl
  case h_2 =>
    split
    case h_1 => rfl
    case h_2 =>
      dsimp only
      split <;> rfl

/-! ### Calls that change a drive -/

theorem short_deleteAll (h : drive.Short) (names : List String) :
    (deleteAll drive names).1.Short := by
  induction names generalizing drive with
  | nil => exact h
  | cons name rest ih =>
    have hfirst := h.delete name
    rw [deleteAll]
    split
    case h_1 left hdeleted => exact ih (hfirst.of_eq hdeleted)
    case h_2 left e hrefused => exact hfirst.of_eq hrefused

theorem Short.deleteFiles (h : d.Short) (m : Memory) (fcb : UInt16) :
    (d.deleteFiles m fcb).disk.Short := by
  rw [DiskSystem.deleteFiles]
  split
  case h_1 => exact h
  case h_2 index drive hselected =>
    split
    case h_1 => exact h
    case h_2 names hnames =>
      exact h.setDrive (short_deleteAll (h.selected? hselected) _) index

/-- Records are written to a file that is there. -/
theorem Short.writeSequential (h : d.Short) (m : Memory) (fcb : UInt16) :
    (d.writeSequential m fcb).disk.Short := by
  rw [DiskSystem.writeSequential]
  split
  case h_1 => exact h
  case h_2 index drive hselected =>
    have hdrive := h.selected? hselected
    dsimp only
    split
    case h_1 => exact h
    case h_2 content hfound =>
      split
      case isTrue => exact h
      case isFalse =>
        generalize FileRecord.set content _ _ = written
        have hsaved := hdrive.save (hdrive.fits_of_get? hfound) written
        split
        case h_1 left error hrefused => exact h.setDrive (hsaved.of_eq hrefused) index
        case h_2 left hdone => exact h.setDrive (hsaved.of_eq hdone) index

theorem Short.makeFile (h : d.Short) (hname : Fits (FileControlBlock.name m fcb)) :
    (d.makeFile m fcb).disk.Short := by
  rw [DiskSystem.makeFile]
  split
  case h_1 => exact h
  case h_2 index drive hselected =>
    dsimp only
    split
    case isTrue => exact h
    case isFalse =>
      have hsaved := (h.selected? hselected).save hname #[]
      split
      case h_1 left error hrefused => exact h.setDrive (hsaved.of_eq hrefused) index
      case h_2 left hdone => exact h.setDrive (hsaved.of_eq hdone) index

theorem Short.renameFile (h : d.Short)
    (hname : Fits (FileControlBlock.name m (fcb + FileControlBlock.renameOffset))) :
    (d.renameFile m fcb).disk.Short := by
  rw [DiskSystem.renameFile]
  split
  case h_1 => exact h
  case h_2 index drive hselected =>
    exact h.setDrive ((h.selected? hselected).rename hname _) index

end DiskSystem

/-! ## Stations -/

namespace Station

variable {s : Station}

/-- Every name on every drive is short. -/
def Short (s : Station) : Prop :=
  s.disk.Short

theorem Short.onConsole (h : s.Short) (f : Console → Console) : (s.onConsole f).Short := h

theorem Short.printLine (h : s.Short) (text : String) : (s.printLine text).Short :=
  h.onConsole _

theorem Short.print (h : s.Short) (text : String) : (s.print text).Short :=
  h.onConsole _

theorem Short.onUsage (h : s.Short) (f : Usage → Usage) : (s.onUsage f).Short := h

theorem Short.onDisk (h : s.Short) {f : DiskSystem → DiskSystem}
    (hf : s.disk.Short → (f s.disk).Short) : (s.onDisk f).Short :=
  hf h

theorem Short.foldl {α : Type} (h : s.Short) {f : Station → α → Station}
    (hf : ∀ (s : Station) (x : α), s.Short → (f s x).Short) (xs : List α) :
    (xs.foldl f s).Short := by
  induction xs generalizing s with
  | nil => exact h
  | cons x rest ih => exact ih (hf s x h)

theorem Short.printLines (h : s.Short) (lines : List String) : (s.printLines lines).Short :=
  h.foldl (fun _ line h => h.printLine line) lines

theorem short_onFiles {f : DiskSystem → Memory → DiskSystem.Reply}
    (hf : (f s.disk s.memory).disk.Short) : (s.onFiles f).1.Short := by
  rw [onFiles_parts]
  exact hf

theorem Short.switch (h : s.Short) {index : Nat} {d : DiskSystem}
    (hselected : s.disk.select index = .ok d) : (s.onDisk fun _ => d).Short := by
  rw [DiskSystem.eq_of_select hselected]
  exact h

end Station

/-! ## System calls -/

namespace SystemCall

open FileName DiskSystem

/-- The name that a call gives to a file, whether it fits or not. -/
def newName? (call : SystemCall) (m : Memory) (fcb : UInt16) : Option String :=
  match call with
  | makeFile => some (FileControlBlock.name m fcb)
  | renameFile => some (FileControlBlock.name m (fcb + FileControlBlock.renameOffset))
  | _ => none

theorem short_execute {s : Station} (h : s.Short) {call : SystemCall} {parameter : UInt16}
    (hname : ∀ name ∈ call.newName? s.memory parameter, Fits name) :
    (call.execute parameter s).1.Short := by
  cases call with
  | consoleInput =>
    rw [Station.Short, execute, disk_readByte]
    exact h
  | selectDisk =>
    simp only [execute]
    split
    case h_1 d hselected => exact h.switch hselected
    case h_2 => exact h
  | systemReset | resetDisks | consoleOutput | printString | readLine | consoleStatus | version
  | currentDisk | setTransfer | getUser | setUser => exact h
  | openFile => exact Station.short_onFiles (h.of_drives_eq (drives_openFile _ _ _))
  | closeFile => exact Station.short_onFiles (h.of_drives_eq (drives_closeFile _ _ _))
  | searchFirst => exact Station.short_onFiles (h.of_drives_eq (drives_searchFirst _ _ _))
  | searchNext => exact Station.short_onFiles (h.of_drives_eq (drives_searchNext _ _))
  | readSequential => exact Station.short_onFiles (h.of_drives_eq (drives_readSequential _ _ _))
  | deleteFiles => exact Station.short_onFiles (h.deleteFiles _ _)
  | writeSequential => exact Station.short_onFiles (h.writeSequential _ _)
  | makeFile => exact Station.short_onFiles (h.makeFile (hname _ rfl))
  | renameFile => exact Station.short_onFiles (h.renameFile (hname _ rfl))

/-- The name that the call with a function number gives to a file. -/
def namedBy? (function : UInt8) (m : Memory) (parameter : UInt16) : Option String :=
  (ofFunction? function).bind fun call => call.newName? m parameter

theorem short_perform {s : Station} (h : s.Short) {function : UInt8} {parameter : UInt16}
    (hname : ∀ name ∈ namedBy? function s.memory parameter, Fits name) :
    (perform function parameter s).1.Short := by
  rw [perform]
  rw [namedBy?] at hname
  split
  case h_1 call hcall =>
    rw [hcall, Option.bind_some] at hname
    exact short_execute h hname
  case h_2 => exact h

end SystemCall

/-! ## The command line -/

namespace CommandLine

open FileName

variable {s : Station} {argument : List Char}

/-- The name that a renaming gives to a file. -/
def renamed? (d : DiskSystem) (argument : List Char) : Option String :=
  match argument.dropWhile (· ≠ '=') with
  | [] => none
  | _ :: _ => (fileArgument? d (argument.takeWhile (· ≠ '='))).map Prod.snd

/-- The name that a line gives to a file, whether it fits or not. -/
def newName? (d : DiskSystem) (line : List Char) : Option String :=
  let (word, tail) := Text.splitWord (Text.trim line)
  match Command.ofWord (Text.upper word) with
  | .rename => renamed? d (Text.trim tail)
  | _ => none

theorem short_listDirectory (h : s.Short) (argument : List Char) :
    (listDirectory argument s).1.Short := by
  unfold listDirectory
  split
  case h_1 => exact h.printLine _
  case h_2 =>
    split
    case h_1 => exact h.printLine _
    case h_2 =>
      split
      case h_1 => exact h
      case h_2 => exact h.foldl (fun _ _ h => h.printLine _) _

theorem short_typeFile (h : s.Short) (argument : List Char) : (typeFile argument s).Short := by
  unfold typeFile
  split
  case isTrue => exact h.printLine _
  case isFalse =>
    split
    case h_1 => exact h.printLine _
    case h_2 =>
      dsimp only
      split
      case isTrue => exact h.onConsole _
      case isFalse => exact (h.onConsole _).onConsole _

theorem short_eraseAll (h : s.Short) (drive : Nat) (names : List String) :
    (eraseAll drive s names).Short := by
  induction names generalizing s with
  | nil => exact h
  | cons name rest ih =>
    unfold eraseAll
    split
    case h_1 => exact h
    case h_2 target htarget =>
      have hdeleted := (DiskSystem.Short.drive? h htarget).delete name
      split
      case h_1 left hdone =>
        exact ih (h.onDisk fun h => h.setDrive (hdeleted.of_eq hdone) drive)
      case h_2 left e hrefused =>
        have hleft : (s.onDisk fun d => d.setDrive drive left).Short :=
          h.onDisk fun h => h.setDrive (hdeleted.of_eq hrefused) drive
        exact ih (hleft.printLine _)

theorem short_erase (h : s.Short) (argument : List Char) : (erase argument s).Short := by
  unfold erase
  split
  case isTrue => exact h.printLine _
  case isFalse =>
    split
    case h_1 => exact h.printLine _
    case h_2 =>
      split
      case h_1 => exact h.printLine _
      case h_2 => exact short_eraseAll h _ _

theorem short_rename (h : s.Short) (hname : ∀ name ∈ renamed? s.disk argument, Fits name) :
    (rename argument s).Short := by
  unfold rename
  rw [renamed?] at hname
  split
  case h_1 => exact h.printLine _
  case h_2 mark old hparts =>
    rw [hparts] at hname
    split
    case h_2 => exact h.printLine _
    case h_1 drive new _ source hnew hold =>
      rw [hnew] at hname
      split
      case h_1 => exact h.printLine _
      case h_2 target htarget =>
        have hrenamed := (DiskSystem.Short.drive? h htarget).rename (hname new rfl) source
        have hdone : (s.onDisk fun d => d.setDrive drive (target.rename source new).1).Short :=
          h.onDisk fun h => h.setDrive hrenamed drive
        dsimp only
        split
        case h_1 => exact hdone
        case h_2 | h_3 | h_4 => exact hdone.printLine _

theorem short_reportSaved (h : s.Short) (result : Option (Option DriveError))
    {success : Station → Station} (hsuccess : s.Short → (success s).Short) :
    (reportSaved result success s).Short := by
  unfold reportSaved
  split
  case h_1 => exact hsuccess h
  case h_2 | h_3 => exact h.printLine _

/-- A name with a dot goes on with the dot behind its base. -/
theorem exists_base_append {name : List Char} (hdotted : '.' ∈ name) :
    ∃ rest, name = name.takeWhile (· ≠ '.') ++ '.' :: rest := by
  induction name with
  | nil => cases hdotted
  | cons c rest ih =>
    by_cases hc : c = '.'
    case pos => exact ⟨rest, by simp [hc]⟩
    case neg =>
      obtain ⟨extension, hrest⟩ := ih (List.mem_of_ne_of_mem (Ne.symm hc) hdotted)
      refine ⟨extension, ?_⟩
      rw [List.takeWhile_cons_of_pos (by simpa using hc), List.cons_append, ← hrest]

/-- The name of a program file fits if that of its source does. -/
theorem fits_output {name normal : String}
    (hnormal : normalize? (if name.toList.contains '.' then name
      else String.ofList (name.toList.takeWhile (· ≠ '.')) ++ ".ASM") = some normal)
    (hshort : isShort normal = true) :
    Fits (String.ofList (name.toList.takeWhile (· ≠ '.')) ++ ".COM") := by
  have hbase : '.' ∉ name.toList.takeWhile (· ≠ '.') := by
    intro hdot
    simpa using List.mem_takeWhile_imp hdot
  have hsource : ∃ rest, (if name.toList.contains '.' then name
      else String.ofList (name.toList.takeWhile (· ≠ '.')) ++ ".ASM") =
        String.ofList (name.toList.takeWhile (· ≠ '.') ++ '.' :: rest) := by
    split
    case isTrue hdotted =>
      obtain ⟨rest, hrest⟩ := exists_base_append (List.contains_iff_mem.mp hdotted)
      exact ⟨rest, by rw [← hrest, String.ofList_toList]⟩
    case isFalse => exact ⟨['A', 'S', 'M'], by rw [String.ofList_append]⟩
  obtain ⟨rest, hrest⟩ := hsource
  rw [hrest] at hnormal
  have hfits : Fits (String.ofList (name.toList.takeWhile (· ≠ '.') ++ ['.', 'C', 'O', 'M'])) :=
    fits_of_same_base hbase hnormal hshort (by decide) (by decide) (by simp [isPlain])
  rwa [String.ofList_append] at hfits

theorem short_assembleFile (h : s.Short) (argument : List Char) :
    (assembleFile argument s).Short := by
  unfold assembleFile
  split
  case isTrue => exact h.printLine _
  case isFalse =>
    split
    case h_1 => exact h.printLine _
    case h_2 drive name hargument =>
      dsimp only
      split
      case h_1 => exact h.printLine _
      case h_2 content hfound =>
        -- the source is on a drive, so its name is short, and so is the base
        have hfits : Fits (String.ofList (name.toList.takeWhile (· ≠ '.')) ++ ".COM") := by
          obtain ⟨target, htarget, hget⟩ := Option.bind_eq_some_iff.mp hfound
          obtain ⟨normal, hnormal, -⟩ := Option.bind_eq_some_iff.mp hget
          have hdrive : target.Short := DiskSystem.Short.drive? h htarget
          exact fits_output hnormal (hdrive.fits_of_get? hget normal hnormal)
        have hcounted (clean : Bool) := h.onUsage fun u => u.addAssembly clean
        split
        case isTrue =>
          exact ((hcounted _).foldl (fun _ _ h => h.printLine _) _).printLine _
        case isFalse =>
          split
          case isTrue => exact (hcounted _).printLine _
          case isFalse =>
            apply short_reportSaved
            · exact (hcounted _).onDisk fun h => h.saveFile hfits drive _
            · intro hsaved
              exact hsaved.printLine _

/-- A name for a new file is short. -/
theorem isShort_of_isNewName {name : String} (h : isNewName name = true) :
    isShort name = true := by
  rw [isNewName, Bool.and_eq_true] at h
  exact h.2

theorem short_saveMemory (h : s.Short) (argument : List Char) :
    (saveMemory argument s).Short := by
  unfold saveMemory
  split
  case h_2 => exact h.printLine _
  case h_1 =>
    split
    case h_1 => exact h.printLine _
    case h_2 =>
      split
      case h_1 => exact h.printLine _
      case h_2 drive name hargument =>
        split
        case isTrue => exact h.printLine _
        case isFalse hnew =>
          have hshort : isShort name = true := isShort_of_isNewName (by simpa using hnew)
          split
          case h_1 => exact h.printLine _
          case h_2 image himage =>
            apply short_reportSaved _ _ id
            exact h.onDisk fun h => h.saveFile (fits_of_isShort hshort) drive _

theorem short_edit (h : s.Short) (argument : List Char) : (edit argument s).1.Short := by
  unfold edit
  dsimp only
  split
  case h_1 => exact h.printLine _
  case h_2 =>
    split
    case isTrue => exact h
    case isFalse => exact h.printLine _

theorem short_switchDrive (h : s.Short) (letter : Char) : (switchDrive letter s).Short := by
  unfold switchDrive
  split
  case h_1 d hselected => exact h.switch hselected
  case h_2 => exact h.printLine _

theorem short_loadProgram (h : s.Short) (word tail : List Char) :
    (loadProgram word tail s).1.Short := by
  unfold loadProgram
  split
  case h_1 => exact h.printLine _
  case h_2 =>
    obtain ⟨m, d, c, u⟩ := s
    dsimp only
    split
    case h_1 => exact h.printLine _
    case h_2 => exact h

theorem short_execute (h : s.Short) {line : List Char}
    (hname : ∀ name ∈ newName? s.disk line, Fits name) : (execute line s).1.Short := by
  unfold execute
  unfold newName? at hname
  dsimp only at hname ⊢
  generalize Text.trim (Text.splitWord (Text.trim line)).2 = tail at hname ⊢
  split
  case isTrue => exact h
  case isFalse =>
    generalize Command.ofWord _ = command at hname ⊢
    cases command with
    | directory => exact short_listDirectory h tail
    | type => exact short_typeFile h tail
    | erase => exact short_erase h tail
    | rename => exact short_rename h hname
    | assemble => exact short_assembleFile h tail
    | save => exact short_saveMemory h tail
    | edit => exact short_edit h tail
    | basic | exit => exact h
    | help => exact h.printLines _
    | switchDrive letter => exact short_switchDrive h letter
    | program word => exact short_loadProgram h word tail

/-- The editor is opened for short names only. -/
theorem isShort_of_execute {line : List Char} {drive : Nat} {name : String}
    (h : (execute line s).2 = .edit drive name) : isShort name = true := by
  unfold execute at h
  dsimp only at h
  generalize Text.trim (Text.splitWord (Text.trim line)).2 = tail at h
  split at h
  case isTrue => cases h
  case isFalse =>
    generalize Command.ofWord _ = command at h
    cases command with
    | edit =>
      simp only [perform, edit] at h
      split at h
      case h_1 => cases h
      case h_2 =>
        split at h
        case isTrue hnew =>
          cases h
          exact isShort_of_isNewName hnew
        case isFalse => cases h
    | directory =>
      simp only [perform, listDirectory] at h
      split at h
      case h_1 => cases h
      case h_2 =>
        split at h
        case h_1 => cases h
        case h_2 => split at h <;> cases h
    | program word =>
      simp only [perform, loadProgram] at h
      split at h
      case h_1 => cases h
      case h_2 => split at h <;> cases h
    | type | erase | rename | assemble | save | basic | exit | help | switchDrive => cases h

end CommandLine

/-! ## The editor -/

namespace LineEditor

open FileName

variable {s : Station} {e : LineEditor}

theorem short_start (h : s.Short) (drive : Nat) (fileName : String) :
    (start drive fileName s).2.Short := by
  unfold start
  exact ((((h.printLine _).printLine _).printLine _).printLine _).print _

theorem short_save (h : s.Short) (he : isShort e.fileName = true) : (e.save s).Short := by
  obtain ⟨m, d, c, u⟩ := s
  have hsaved : Station.Short ⟨m, _, c, u⟩ :=
    DiskSystem.Short.saveFile h (fits_of_isShort he) e.drive (TextFile.ofLines e.lines)
  unfold save
  dsimp only
  split
  case h_1 | h_2 | h_3 => exact hsaved.printLine _

theorem short_delete (h : s.Short) (e : LineEditor) (argument : List Char) :
    (e.delete argument s).2.Short ∧ (e.delete argument s).1.fileName = e.fileName := by
  unfold delete
  split
  case h_1 =>
    split
    case isTrue => exact ⟨h.printLine _, rfl⟩
    case isFalse => exact ⟨h.printLine _, rfl⟩
  case h_2 => exact ⟨h.printLine _, rfl⟩

theorem short_command (h : s.Short) (he : isShort e.fileName = true) (input : List Char) :
    (e.command input s).2.1.Short ∧ (e.command input s).1.fileName = e.fileName := by
  unfold command
  split
  case h_1 => exact ⟨h, rfl⟩
  case h_2 letter rest hinput =>
    dsimp only
    split
    case h_1 => exact ⟨h.printLine _, rfl⟩
    case h_2 => exact short_delete h e _
    case h_3 => exact ⟨h.foldl (fun _ _ h => h.printLine _) _, rfl⟩
    case h_4 => exact ⟨short_save h he, rfl⟩
    case h_5 => exact ⟨h, rfl⟩
    case h_6 => exact ⟨h.printLines _, rfl⟩
    case h_7 => exact ⟨h.printLine _, rfl⟩

/-- The editor keeps the name of its file. -/
theorem short_handle (h : s.Short) (he : isShort e.fileName = true) (input : List Char) :
    (e.handle input s).2.1.Short ∧ (e.handle input s).1.fileName = e.fileName := by
  unfold handle
  split
  case isTrue =>
    constructor
    · exact h.print _
    · dsimp only
      split <;> rfl
  case isFalse =>
    obtain ⟨hcommand, hfile⟩ := short_command h he input
    generalize e.command input s = result at hcommand hfile ⊢
    obtain ⟨f, t, status⟩ := result
    cases status with
    | quit => exact ⟨hcommand, hfile⟩
    | editing => exact ⟨hcommand.print _, hfile⟩

end LineEditor

/-! ## BASIC -/

namespace Basic.Interpreter

open FileName

variable {s : Station}

/-- The name that a line gives to a file, whether it fits or not. -/
def newName? (i : Interpreter) (line : List Char) : Option String :=
  let (word, rest) := Text.splitWord (Text.trim line)
  let argument := Text.trim rest
  if i.isRunning ∨ argument.isEmpty then none
  else
    match Command.ofWord? (Text.upper word) with
    | some .save => some (fileName argument)
    | _ => none

theorem short_start (h : s.Short) : (start s).2.Short :=
  (h.printLines banner).print prompt

theorem short_save (h : s.Short) (i : Interpreter) {argument : List Char}
    (hname : argument.isEmpty = false → Fits (fileName argument)) :
    (i.save argument s).2.1.Short := by
  obtain ⟨m, d, c, u⟩ := s
  unfold save
  split
  case isTrue => exact (h.printLine _).print _
  case isFalse hargument =>
    have hsaved : Station.Short ⟨m, _, c, u⟩ := DiskSystem.Short.saveFile h
      (hname (Bool.eq_false_iff.mpr hargument)) d.current i.program.toFile
    dsimp only
    split
    case h_1 | h_2 => exact (hsaved.printLine _).print _
    case h_3 => exact hsaved

theorem short_load (h : s.Short) (i : Interpreter) (argument : List Char) :
    (i.load argument s).2.1.Short := by
  unfold load
  dsimp only
  split
  case h_1 => exact h
  case h_2 =>
    split
    case h_1 | h_2 => exact (h.printLine _).print _

theorem short_perform (h : s.Short) (budget : Nat) (command : Command) (i : Interpreter)
    {argument : List Char}
    (hname : command = .save → argument.isEmpty = false → Fits (fileName argument)) :
    (perform budget command argument i s).2.1.Short := by
  cases command with
  | new | clear => exact (h.printLine _).print _
  | list => exact (h.foldl (fun _ _ h => h.printLine _) _).print _
  | run | quit => exact h
  | save => exact short_save h i (hname rfl)
  | load => exact short_load h i argument
  | help => exact (h.printLines _).print _

theorem short_handle (h : s.Short) (budget : Nat) {i : Interpreter} {line : List Char}
    (hname : ∀ name ∈ i.newName? line, Fits name) :
    (i.handle budget line s).2.1.Short := by
  unfold handle
  split
  case h_2 => exact h
  case h_1 hready =>
    have hidle : i.isRunning = false := by rw [isRunning, hready, Option.isSome_none]
    unfold newName? at hname
    unfold obey
    dsimp only at hname ⊢
    split
    case isTrue =>
      split
      case h_1 => exact h.print _
      case h_2 => exact (h.printLine _).print _
    case isFalse =>
      split
      case isTrue => exact h.print _
      case isFalse =>
        split
        case h_2 => exact (h.printLine _).print _
        case h_1 command hcommand =>
          apply short_perform h
          rintro rfl hargument
          rw [hcommand] at hname
          apply hname
          simp [hidle, hargument]

end Basic.Interpreter

end Cpm80
