import Cpm80.Proofs.DiskInvariants
import Cpm80.Proofs.Patterns

/-!
# What commands do to files

Four commands change files: one takes away those that match a pattern, two write a file, and one
moves a file to another name. Each touches only files that its argument names, on the drive that
the argument designates, and all other command lines leave the drives as they are. The drive is
told by the letter in front of the name. Of the two names of a renaming only the new one tells it:
a letter in front of the old name has to have a drive, but the file is looked for beside the new
name. And a source file that is named as a program gives way to the program it is assembled into.
-/
namespace Cpm80

open FileName

namespace FileName

/-- Matching does not tell a name from its normal form. -/
theorem isMatch_of_normalize? {name normal : String} (h : normalize? name = some normal)
    (pattern : String) : isMatch normal pattern = isMatch name pattern := by
  have hpadded : padded normal = padded name := by
    rw [normalize?] at h
    split at h
    case isTrue => cases h
    case isFalse =>
      obtain rfl := Option.some.inj h
      have htight := (Text.tight_trim name.toList).upper
      rw [padded, padded, String.toList_ofList, Text.trim_of_tight htight, Text.upper_upper]
  rw [isMatch, isMatch, hpadded]

end FileName

/-! ## The files on all drives -/

/-- What is found under the number of a drive and a name. -/
abbrev Lookup := Nat → String → Option (Array UInt8)

namespace Lookup

/-- Without the files on a drive that match a pattern. -/
def erased (found : Lookup) (drive : Nat) (pattern : String) : Lookup := fun index name =>
  if index = drive ∧ isMatch name pattern then none else found index name

/-- With a file on a drive, new or in the place of an older one. -/
def written (found : Lookup) (drive : Nat) (normal : String) (content : Array UInt8) : Lookup :=
  fun index name =>
    if index = drive ∧ normalize? name = some normal then some content else found index name

/-- With a file of a drive under another name. -/
def moved (found : Lookup) (drive : Nat) (old new : String) : Lookup := fun index name =>
  if index = drive ∧ normalize? name = some new then found drive old
  else if index = drive ∧ normalize? name = some old then none
  else found index name

end Lookup

namespace DiskSystem

variable {d : DiskSystem} {index : Nat} {drive : Drive} {files : Files} {found : Lookup}

theorem file?_memory (h : d.drive? index = some (.memory files)) (name : String) :
    d.file? index name = (normalize? name).bind files.get? := by
  rw [file?, h, Option.bind_some]
  rfl

/-- Only the normal form of a name matters. -/
theorem file?_congr {name other : String} (h : normalize? name = normalize? other) (index : Nat) :
    d.file? index name = d.file? index other := by
  rw [file?, file?]
  congr 1
  funext drive
  rw [Drive.get?, Drive.get?, h]

theorem file?_setDrive_of_ne {other : Nat} (h : other ≠ index) (left : Drive) (name : String) :
    (d.setDrive index left).file? other name = d.file? other name := by
  rw [file?, file?, drive?, drive?, setDrive, List.getElem?_set_ne h.symm]

/-- What other files in the memory of one drive come to on all drives. -/
theorem file?_setDrive_eq (h : d.drive? index = some (.memory files)) (left : Files)
    (hothers : ∀ other name, other ≠ index → found other name = d.file? other name)
    (hnone : ∀ name, normalize? name = none → found index name = none)
    (hsome : ∀ name normal, normalize? name = some normal → found index name = left.get? normal) :
    (d.setDrive index (.memory left)).file? = found := by
  funext other name
  by_cases hother : other = index
  case neg => rw [file?_setDrive_of_ne hother, hothers other name hother]
  case pos =>
    subst hother
    rw [file?_memory (drive?_setDrive h _)]
    cases hname : normalize? name with
    | none => rw [hnone name hname, Option.bind_none]
    | some normal => rw [hsome name normal hname, Option.bind_some]

theorem InMemory.exists_files (h : d.InMemory) (hdrive : d.drive? index = some drive) :
    ∃ files : Files, files.Normal ∧ drive = .memory files :=
  h drive (List.mem_of_getElem? hdrive)

theorem invariant_inMemory : Invariant InMemory where
  operate h hdrive operations := h.of_evolves (evolves_setDrive hdrive ⟨operations, rfl⟩)
  select h _ := h
  reset h := h
  note h _ _ _ := h

theorem file?_setDrive_eraseAll (h : d.drive? index = some (.memory files)) (pattern : String) :
    (d.setDrive index (.memory (files.eraseAll
      (files.keys.filter fun name => isMatch name pattern)))).file? =
        Lookup.erased d.file? index pattern := by
  apply file?_setDrive_eq h
  case hothers =>
    intro other name hother
    rw [Lookup.erased, if_neg (hother ·.1)]
  case hnone =>
    intro name hname
    rw [Lookup.erased, file?_memory h, hname, Option.bind_none, ite_self]
  case hsome =>
    intro name normal hname
    simp only [Lookup.erased, true_and, file?_memory h, hname, Option.bind_some,
      Files.get?_eraseAll_filter, isMatch_of_normalize? hname]

theorem file?_setDrive_insert (h : d.drive? index = some (.memory files)) (normal : String)
    (content : Array UInt8) :
    (d.setDrive index (.memory (files.insert normal content))).file? =
      Lookup.written d.file? index normal content := by
  apply file?_setDrive_eq h
  case hothers =>
    intro other name hother
    rw [Lookup.written, if_neg (hother ·.1)]
  case hnone =>
    intro name hname
    simp only [Lookup.written, hname, reduceCtorEq, and_false, if_false, file?_memory h,
      Option.bind_none]
  case hsome =>
    intro name other hname
    simp only [Lookup.written, hname, true_and, Option.some.injEq, file?_memory h,
      Option.bind_some, SortedMap.get?_insert, eq_comm]

theorem file?_setDrive_move (h : d.drive? index = some (.memory files)) {old new : String}
    (hold : IsNormal old) {content : Array UInt8} (hthere : files.get? old = some content) :
    (d.setDrive index (.memory ((files.erase old).insert new content))).file? =
      Lookup.moved d.file? index old new := by
  apply file?_setDrive_eq h
  case hothers =>
    intro other name hother
    rw [Lookup.moved, if_neg (hother ·.1), if_neg (hother ·.1)]
  case hnone =>
    intro name hname
    simp only [Lookup.moved, hname, reduceCtorEq, and_false, if_false, file?_memory h,
      Option.bind_none]
  case hsome =>
    intro name other hname
    have hfile : d.file? index old = some content := by
      rw [file?_memory h, hold, Option.bind_some, hthere]
    simp only [Lookup.moved, hname, true_and, Option.some.injEq, hfile, file?_memory h,
      Option.bind_some, SortedMap.get?_insert, SortedMap.get?_erase, eq_comm]

/-- Saving on a drive in memory fails and changes nothing, or writes the file. -/
theorem InMemory.saveFile (h : d.InMemory) (index : Nat) (name : String) (content : Array UInt8) :
    (d.saveFile index name content).1 = d ∨
      ∃ normal, normalize? name = some normal ∧
        (d.saveFile index name content).1.file? = Lookup.written d.file? index normal content := by
  rw [DiskSystem.saveFile]
  split
  case h_2 => exact .inl rfl
  case h_1 drive hdrive =>
    obtain ⟨files, -, rfl⟩ := h.exists_files hdrive
    dsimp only [Drive.memory_save, Prod.map_fst]
    rw [Files.save]
    split
    case h_1 e hinvalid => exact .inl (setDrive_self hdrive)
    case h_2 normal hvalid =>
      exact .inr ⟨normal, Files.normalize_eq_ok_iff.mp hvalid, file?_setDrive_insert hdrive ..⟩

/-- A drive has a file of the old name, and the new name is allowed and free. -/
structure CanMove (d : DiskSystem) (index : Nat) (old new : String) : Prop where
  allowed : (normalize? new).isSome
  there : (d.file? index old).isSome
  free : d.file? index new = none

theorem canMove_iff (hdrive : d.drive? index = some (.memory files))
    {old new source target : String} (hold : normalize? old = some source)
    (hnew : normalize? new = some target) :
    d.CanMove index old new ↔ files.contains target = false ∧ (files.get? source).isSome := by
  have hthere : d.file? index old = files.get? source := by
    rw [file?_memory hdrive, hold, Option.bind_some]
  have hfree : d.file? index new = files.get? target := by
    rw [file?_memory hdrive, hnew, Option.bind_some]
  rw [SortedMap.contains, Option.isSome_eq_false_iff, Option.isNone_iff_eq_none]
  constructor
  · intro h
    exact ⟨hfree.symm.trans h.free, hthere ▸ h.there⟩
  · rintro ⟨hnone, hsome⟩
    exact ⟨by rw [hnew, Option.isSome_some], hthere.symm ▸ hsome, hfree.trans hnone⟩

/-- The file of the old name is then that of the new one. -/
theorem CanMove.file?_moved {old new source target : String} (h : d.CanMove index old new)
    (hold : normalize? old = some source) (hnew : normalize? new = some target) :
    Lookup.moved d.file? index source target index new = d.file? index old ∧
      Lookup.moved d.file? index source target index old = none := by
  -- the old name is taken and the new one free, so they are two names
  have hne : normalize? old ≠ normalize? new := by
    intro heq
    have hthere := h.there
    rw [file?_congr heq, h.free] at hthere
    cases hthere
  constructor
  · rw [Lookup.moved, if_pos ⟨rfl, hnew⟩]
    exact file?_congr ((isNormal_of_normalize? hold).trans hold.symm) index
  · rw [Lookup.moved, if_neg (hne <| ·.2.trans hnew.symm), if_pos ⟨rfl, hold⟩]

/-- Renaming on a drive in memory moves the file if it can be moved, and changes nothing
otherwise. -/
theorem InMemory.rename (h : d.InMemory) (hdrive : d.drive? index = some drive)
    (old new : String) :
    (¬d.CanMove index old new ∧ d.setDrive index (drive.rename old new).1 = d) ∨
      (d.CanMove index old new ∧
        ∃ source target, normalize? old = some source ∧ normalize? new = some target ∧
          (d.setDrive index (drive.rename old new).1).file? =
            Lookup.moved d.file? index source target) := by
  obtain ⟨files, -, rfl⟩ := h.exists_files hdrive
  dsimp only [Drive.memory_rename, Prod.map_fst]
  cases hold : normalize? old with
  | none =>
    have hrefused : (files.rename old new).1 = files := by
      simp only [Files.rename, FileName.normalize, hold]
    refine .inl ⟨fun hmove => ?_, by rw [hrefused, setDrive_self hdrive]⟩
    simpa [file?_memory hdrive, hold] using hmove.there
  | some source =>
    cases hnew : normalize? new with
    | none =>
      have hrefused : (files.rename old new).1 = files := by
        simp only [Files.rename, FileName.normalize, hold, hnew]
      refine .inl ⟨fun hmove => ?_, by rw [hrefused, setDrive_self hdrive]⟩
      simpa [hnew] using hmove.allowed
    | some target =>
      simp only [Files.rename, Files.normalize_eq_ok_iff.mpr hold,
        Files.normalize_eq_ok_iff.mpr hnew, canMove_iff hdrive hold hnew]
      split
      case isTrue htaken => exact .inl ⟨by simp [htaken], setDrive_self hdrive⟩
      case isFalse hfree =>
        split
        case h_1 hmissing => exact .inl ⟨by simp [hmissing], setDrive_self hdrive⟩
        case h_2 content hfound =>
          refine .inr ⟨⟨by simpa using hfree, by rw [hfound, Option.isSome_some]⟩, ?_⟩
          exact ⟨source, target, rfl, rfl,
            file?_setDrive_move hdrive (isNormal_of_normalize? hold) hfound⟩

end DiskSystem

/-! ## Commands -/

namespace CommandLine

open DiskSystem

/-- The command of a line and its argument; nothing for a line without a word. -/
def commandOf? (line : List Char) : Option (Command × List Char) :=
  let (word, tail) := Text.splitWord (Text.trim line)
  if word.isEmpty then none else some (Command.ofWord (Text.upper word), Text.trim tail)

/-- The part of a file name in front of its extension. -/
def baseName (name : String) : String :=
  String.ofList (name.toList.takeWhile (· ≠ '.'))

/-- The source file that a name to assemble stands for. -/
def sourceName (name : String) : String :=
  if name.toList.contains '.' then name else baseName name ++ ".ASM"

/-- The program file that is assembled from it. -/
def programName (name : String) : String :=
  baseName name ++ ".COM"

/-- The texts on the two sides of the first equals sign. -/
def sides? (argument : List Char) : Option (List Char × List Char) :=
  match argument.dropWhile (· ≠ '=') with
  | [] => none
  | _ :: old => some (argument.takeWhile (· ≠ '='), old)

/-- The commands that may change files. -/
def changesFiles : Command → Bool
  | .erase | .rename | .assemble | .save => true
  | _ => false

/-- What a command with an argument makes of the files on the drives: `e` is what `d` has become.
Whatever the command, it may have changed nothing. -/
inductive Changes (d e : DiskSystem) : Option (Command × List Char) → Prop
  | nothing {command : Option (Command × List Char)} (hsame : e.drives = d.drives) :
      Changes d e command
  | erases {argument : List Char} {drive : Nat} {pattern : String}
      (hargument : fileArgument? d argument = some (drive, pattern))
      (hfiles : e.file? = Lookup.erased d.file? drive pattern) :
      Changes d e (some (.erase, argument))
  | saves {argument number file : List Char} {more : List (List Char)} {drive : Nat}
      {name normal : String} {image : Array UInt8}
      (hargument : Text.words argument = number :: file :: more)
      (hfile : fileArgument? d file = some (drive, name))
      (hnormal : normalize? name = some normal)
      (hfiles : e.file? = Lookup.written d.file? drive normal image) :
      Changes d e (some (.save, argument))
  | assembles {argument : List Char} {drive : Nat} {name normal : String} {image : Array UInt8}
      (hargument : fileArgument? d argument = some (drive, name))
      (hnormal : normalize? (programName name) = some normal)
      (hfiles : e.file? = Lookup.written d.file? drive normal image) :
      Changes d e (some (.assemble, argument))
  /-- The drive that the old name designates is not looked at. -/
  | renames {argument new old : List Char} {drive letter : Nat}
      {newName oldName target source : String}
      (hsides : sides? argument = some (new, old))
      (hnew : fileArgument? d new = some (drive, newName))
      (hold : fileArgument? d old = some (letter, oldName))
      (htarget : normalize? newName = some target)
      (hsource : normalize? oldName = some source)
      (hmove : d.CanMove drive oldName newName)
      (hfiles : e.file? = Lookup.moved d.file? drive source target) :
      Changes d e (some (.rename, argument))

variable {s : Station} {argument : List Char}

theorem keeps_changes (s : Station) (command : Option (Command × List Char)) :
    s.Keeps (Changes s.disk · command) :=
  .nothing rfl

theorem file?_eraseAll (hmemory : s.disk.InMemory) (drive : Nat) (pattern : String) :
    (eraseAll drive s (s.disk.filesMatching drive pattern)).disk.file? =
      Lookup.erased s.disk.file? drive pattern := by
  cases hdrive : s.disk.drive? drive with
  | none =>
    have hnames : s.disk.filesMatching drive pattern = [] := by rw [filesMatching, hdrive]
    funext index name
    rw [hnames, eraseAll, Lookup.erased]
    split
    case isTrue hgone => rw [hgone.1, file?, hdrive, Option.bind_none]
    case isFalse => rfl
  | some target =>
    obtain ⟨files, hnormal, rfl⟩ := hmemory.exists_files hdrive
    have hnames : s.disk.filesMatching drive pattern =
        files.keys.filter fun name => isMatch name pattern := filesMatching_eq hdrive pattern
    rw [hnames, eraseAll_of_deleteAll hdrive (deleteAll_matching hnormal pattern)]
    exact file?_setDrive_eraseAll hdrive pattern

/-- Erasing a pattern takes away all that match it on its drive. -/
theorem file?_erase (hmemory : s.disk.InMemory) (hsome : argument ≠ []) {drive : Nat}
    {pattern : String} (hargument : fileArgument? s.disk argument = some (drive, pattern)) :
    (erase argument s).disk.file? = Lookup.erased s.disk.file? drive pattern := by
  rw [← file?_eraseAll hmemory drive pattern]
  simp only [erase, List.isEmpty_iff, hsome, if_false, hargument]
  split
  case h_1 hnone => rw [hnone, eraseAll, Station.disk_printLine]
  case h_2 => rfl

theorem changes_erase (hmemory : s.disk.InMemory) (argument : List Char) :
    Changes s.disk (erase argument s).disk (some (.erase, argument)) := by
  by_cases hsome : argument = []
  case pos =>
    subst hsome
    exact .nothing rfl
  case neg =>
    cases hargument : fileArgument? s.disk argument with
    | some target => exact .erases hargument (file?_erase hmemory hsome hargument)
    | none =>
      have hrefused : (erase argument s).disk = s.disk := by
        simp only [erase, List.isEmpty_iff, hsome, if_false, hargument, Station.disk_printLine]
      exact .nothing (congrArg DiskSystem.drives hrefused)

theorem changes_saveMemory (hmemory : s.disk.InMemory) (argument : List Char) :
    (saveMemory argument s).Keeps (Changes s.disk · (some (.save, argument))) := by
  have hsame := keeps_changes s (some (.save, argument))
  unfold saveMemory
  split
  case h_2 => exact hsame.printLine _
  case h_1 number file more hwords =>
    split
    case h_1 => exact hsame.printLine _
    case h_2 =>
      split
      case h_1 => exact hsame.printLine _
      case h_2 drive name hfile =>
        split
        case isTrue => exact hsame.printLine _
        case isFalse =>
          split
          case h_1 => exact hsame.printLine _
          case h_2 image himage =>
            apply keeps_reportSaved _ _ id
            rcases hmemory.saveFile drive name image.toArray with hfails | ⟨normal, hn, hfiles⟩
            · exact .nothing (congrArg DiskSystem.drives hfails)
            · exact .saves hwords hfile hn hfiles

theorem changes_assembleFile (hmemory : s.disk.InMemory) (argument : List Char) :
    (assembleFile argument s).Keeps (Changes s.disk · (some (.assemble, argument))) := by
  have hsame := keeps_changes s (some (.assemble, argument))
  unfold assembleFile
  split
  case isTrue => exact hsame.printLine _
  case isFalse =>
    split
    case h_1 => exact hsame.printLine _
    case h_2 drive name hargument =>
      dsimp only
      split
      case h_1 => exact hsame.printLine _
      case h_2 content hfound =>
        have hcounted (clean : Bool) := hsame.onUsage fun u => u.addAssembly clean
        split
        case isTrue => exact ((hcounted _).foldl (fun _ _ h => h.printLine _) _).printLine _
        case isFalse =>
          split
          case isTrue => exact (hcounted _).printLine _
          case isFalse =>
            apply keeps_reportSaved _ _ fun hsaved => hsaved.printLine _
            rcases hmemory.saveFile drive (programName name) _ with hfails | ⟨normal, hn, hfiles⟩
            · exact .nothing (congrArg DiskSystem.drives hfails)
            · exact .assembles hargument hn hfiles

/-- Renaming works on the drive of the new name: it moves the file if it can be moved there, and
changes nothing otherwise. -/
theorem file?_rename (hmemory : s.disk.InMemory) {new old : List Char}
    (hsides : sides? argument = some (new, old)) {drive letter : Nat} {newName oldName : String}
    (hnew : fileArgument? s.disk new = some (drive, newName))
    (hold : fileArgument? s.disk old = some (letter, oldName)) :
    (¬s.disk.CanMove drive oldName newName ∧ (rename argument s).disk = s.disk) ∨
      (s.disk.CanMove drive oldName newName ∧
        ∃ source target, normalize? oldName = some source ∧ normalize? newName = some target ∧
          (rename argument s).disk.file? = Lookup.moved s.disk.file? drive source target) := by
  rw [sides?] at hsides
  split at hsides
  case h_1 => cases hsides
  case h_2 mark rest hparts =>
    cases hsides
    cases hdrive : s.disk.drive? drive with
    | none =>
      refine .inl ⟨fun hmove => ?_, ?_⟩
      · simpa [file?, hdrive] using hmove.there
      · simp only [rename, hparts, hnew, hold, hdrive, Station.disk_printLine]
    | some target =>
      have hdisk : (rename argument s).disk =
          s.disk.setDrive drive (target.rename oldName newName).1 := by
        simp only [rename, hparts, hnew, hold, hdrive]
        split <;> rfl
      rw [hdisk]
      exact hmemory.rename hdrive oldName newName

theorem changes_rename (hmemory : s.disk.InMemory) (argument : List Char) :
    Changes s.disk (rename argument s).disk (some (.rename, argument)) := by
  by_cases hread : ∃ new old target source, sides? argument = some (new, old) ∧
      fileArgument? s.disk new = some target ∧ fileArgument? s.disk old = some source
  case pos =>
    obtain ⟨new, old, ⟨drive, newName⟩, ⟨letter, oldName⟩, hsides, hnew, hold⟩ := hread
    rcases file?_rename hmemory hsides hnew hold with
      ⟨-, hrefused⟩ | ⟨hmove, source, target, hsource, htarget, hfiles⟩
    · exact .nothing (congrArg DiskSystem.drives hrefused)
    · exact .renames hsides hnew hold htarget hsource hmove hfiles
  case neg =>
    have hrefused : (rename argument s).disk = s.disk := by
      unfold rename
      split
      case h_1 => exact s.disk_printLine _
      case h_2 mark old hparts =>
        split
        case h_1 hnew hold =>
          exact absurd ⟨_, _, _, _, by rw [sides?, hparts], hnew, hold⟩ hread
        case h_2 => exact s.disk_printLine _
    exact .nothing (congrArg DiskSystem.drives hrefused)

theorem changes_perform (hmemory : s.disk.InMemory) (command : Command) (argument : List Char) :
    Changes s.disk (perform command argument s).1.disk (some (command, argument)) := by
  have hsame := keeps_changes s (some (command, argument))
  cases command with
  | erase => exact changes_erase hmemory argument
  | rename => exact changes_rename hmemory argument
  | assemble => exact changes_assembleFile hmemory argument
  | save => exact changes_saveMemory hmemory argument
  | directory => exact keeps_listDirectory hsame argument
  | type => exact keeps_typeFile hsame argument
  | edit => exact keeps_edit hsame argument
  | basic | exit => exact hsame
  | help => exact hsame.printLines _
  | program word => exact keeps_loadProgram hsame word argument
  | switchDrive letter =>
    rw [perform, switchDrive]
    split
    case h_1 d hselected =>
      rw [eq_of_select hselected]
      exact .nothing rfl
    case h_2 => exact hsame.printLine _

theorem execute_of_commandOf? {line : List Char} {command : Command}
    (h : commandOf? line = some (command, argument)) (s : Station) :
    execute line s = perform command argument s := by
  unfold commandOf? at h
  dsimp only at h
  split at h
  case isTrue => cases h
  case isFalse hword =>
    cases h
    simp only [execute, if_neg hword]

theorem changes_execute (hmemory : s.disk.InMemory) (line : List Char) :
    Changes s.disk (execute line s).1.disk (commandOf? line) := by
  unfold execute commandOf?
  dsimp only
  split
  case isTrue => exact .nothing rfl
  case isFalse => exact changes_perform hmemory _ _

/-- The program that a source file is assembled into takes the place of the source. -/
def IsOwnProgram (name : String) : Prop :=
  ∃ normal, normalize? (sourceName name) = some normal ∧ normalize? (programName name) = some normal

namespace Changes

variable {d e : DiskSystem}

theorem drives_eq {command : Option (Command × List Char)} (h : Changes d e command)
    (hother : ∀ c argument, command = some (c, argument) → changesFiles c = false) :
    e.drives = d.drives := by
  cases h with
  | nothing hsame => exact hsame
  | erases | saves | assembles | renames => cases hother _ _ rfl

/-- The source is as it was, unless it is named as the program. -/
theorem file?_source (h : Changes d e (some (.assemble, argument))) {drive : Nat} {name : String}
    (hargument : fileArgument? d argument = some (drive, name)) (hown : ¬IsOwnProgram name) :
    e.file? drive (sourceName name) = d.file? drive (sourceName name) := by
  cases h with
  | nothing hsame => rw [file?, file?, drive?, drive?, hsame]
  | assembles hread hnormal hfiles =>
    cases hargument.symm.trans hread
    rw [hfiles, Lookup.written, if_neg]
    exact fun hsource => hown ⟨_, hsource.2, hnormal⟩

end Changes

/-- A command line changes only the files that it names, on drives in memory. Erasing takes away
just the files that match the pattern, on the drive that is designated with it. Saving and
assembling write one file, renaming moves one, and what else can be typed changes nothing. The
source of an assembly stays as it is unless it is named as a program. If both names of a renaming
designate the same drive, the file of the old name is moved if it can be, and otherwise nothing
is changed. -/
theorem commands_change_what_they_name (hmemory : s.disk.InMemory) (line : List Char) :
    let after := (execute line s).1.disk
    after.InMemory ∧ Changes s.disk after (commandOf? line) ∧
      ((∀ command argument, commandOf? line = some (command, argument) →
        changesFiles command = false) → after.drives = s.disk.drives) ∧
      (∀ argument drive pattern, commandOf? line = some (.erase, argument) → argument ≠ [] →
        fileArgument? s.disk argument = some (drive, pattern) →
          after.file? = Lookup.erased s.disk.file? drive pattern) ∧
      (∀ argument drive name, commandOf? line = some (.assemble, argument) →
        fileArgument? s.disk argument = some (drive, name) → ¬IsOwnProgram name →
          after.file? drive (sourceName name) = s.disk.file? drive (sourceName name)) ∧
      ∀ argument new old drive newName oldName, commandOf? line = some (.rename, argument) →
        sides? argument = some (new, old) → fileArgument? s.disk new = some (drive, newName) →
        fileArgument? s.disk old = some (drive, oldName) →
          (s.disk.CanMove drive oldName newName →
            after.file? drive newName = s.disk.file? drive oldName ∧
              after.file? drive oldName = none) ∧
          (¬s.disk.CanMove drive oldName newName → after.drives = s.disk.drives) := by
  intro after
  have hchanges : Changes s.disk after (commandOf? line) := changes_execute hmemory line
  refine ⟨keeps_execute invariant_inMemory hmemory line, hchanges, hchanges.drives_eq, ?erased,
    ?assembled, ?renamed⟩
  case erased =>
    intro argument drive pattern hline hsome hargument
    rw [← file?_erase hmemory hsome hargument]
    exact congrArg (·.1.disk.file?) (execute_of_commandOf? hline s)
  case assembled =>
    intro argument drive name hline hargument hown
    rw [hline] at hchanges
    exact hchanges.file?_source hargument hown
  case renamed =>
    intro argument new old drive newName oldName hline hsides hnew hold
    have hafter : after = (rename argument s).disk :=
      congrArg (·.1.disk) (execute_of_commandOf? hline s)
    rw [hafter]
    rcases file?_rename hmemory hsides hnew hold with
      ⟨hcannot, hrefused⟩ | ⟨hmove, source, target, hsource, htarget, hfiles⟩
    · exact ⟨fun hmove => absurd hmove hcannot, fun _ => congrArg DiskSystem.drives hrefused⟩
    · rw [hfiles]
      exact ⟨fun _ => hmove.file?_moved hsource htarget, fun hcannot => absurd hmove hcannot⟩

/-- A text of one name on each of two drives, and on the second a source named as a program. The
texts on the second drive are comments, so they can be assembled. -/
def twoDrives : Station :=
  .ofDrives
    [.memory (SortedMap.empty.insert "Y.TXT" #[0x31]),
      .memory ((SortedMap.empty.insert "Y.TXT" #[0x3B]).insert "P.COM" #[0x3B])]

/-- With the letter in front of both names the text of the second drive is renamed, a source that
is not named as a program is still there when it has been assembled, and the program stays when
the texts are erased. -/
theorem commands_change_what_they_name_twoDrives :
    let move := "REN B:X.TXT=B:Y.TXT".toList
    let moved := (execute move twoDrives).1.disk
    let assembly := "ASM B:Y.TXT".toList
    let assembled := (execute assembly twoDrives).1.disk
    let erasure := "ERA B:*.TXT".toList
    let erased := (execute erasure twoDrives).1.disk
    let look := "DIR B:".toList
    twoDrives.disk.InMemory ∧
      commandOf? move = some (.rename, "B:X.TXT=B:Y.TXT".toList) ∧
      moved.file? 1 "X.TXT" = some #[0x3B] ∧ moved.file? 1 "Y.TXT" = none ∧
      commandOf? assembly = some (.assemble, "B:Y.TXT".toList) ∧ ¬IsOwnProgram "Y.TXT" ∧
      assembled.file? 1 "Y.COM" = some #[] ∧ assembled.file? 1 "Y.TXT" = some #[0x3B] ∧
      commandOf? erasure = some (.erase, "B:*.TXT".toList) ∧
      erased.file? 1 "Y.TXT" = none ∧ erased.file? 1 "P.COM" = some #[0x3B] ∧
      erased.file? 0 "Y.TXT" = some #[0x31] ∧
      commandOf? look = some (.directory, "B:".toList) ∧
      (execute look twoDrives).1.disk.drives = twoDrives.disk.drives := by
  intro move moved assembly assembled erasure erased look
  have hmemory : twoDrives.disk.InMemory := by
    intro drive hdrive
    rcases List.mem_cons.mp hdrive with rfl | hdrive
    · exact ⟨_, by decide +kernel, rfl⟩
    · obtain rfl := List.mem_singleton.mp hdrive
      exact ⟨_, by decide +kernel, rfl⟩
  have hmove : commandOf? move = some (.rename, "B:X.TXT=B:Y.TXT".toList) := by decide +kernel
  have hassembly : commandOf? assembly = some (.assemble, "B:Y.TXT".toList) := by decide +kernel
  have herasure : commandOf? erasure = some (.erase, "B:*.TXT".toList) := by decide +kernel
  have hlook : commandOf? look = some (.directory, "B:".toList) := by decide +kernel
  have hown : ¬IsOwnProgram "Y.TXT" := by
    rintro ⟨normal, hsource, hprogram⟩
    rw [← hprogram] at hsource
    revert hsource
    decide +kernel
  obtain ⟨-, -, hsame, -⟩ := commands_change_what_they_name hmemory look
  obtain ⟨-, -, -, herased, -⟩ := commands_change_what_they_name hmemory erasure
  obtain ⟨-, -, -, -, hkept, -⟩ := commands_change_what_they_name hmemory assembly
  obtain ⟨-, -, -, -, -, hmoved⟩ := commands_change_what_they_name hmemory move
  have hgone : erased.file? = Lookup.erased twoDrives.disk.file? 1 "*.TXT" :=
    herased _ 1 "*.TXT" herasure (by decide) (by decide +kernel)
  obtain ⟨hnew, hold⟩ := (hmoved _ "B:X.TXT".toList "B:Y.TXT".toList 1 "X.TXT" "Y.TXT" hmove
    (by decide +kernel) (by decide +kernel) (by decide +kernel)).1
      ⟨by decide +kernel, by decide +kernel, by decide +kernel⟩
  refine ⟨hmemory, hmove, hnew, hold, hassembly, hown, by decide +kernel,
    hkept _ 1 "Y.TXT" hassembly (by decide +kernel) hown, herasure, ?_, ?_, ?_, hlook,
    hsame fun command argument hline => ?_⟩
  · rw [hgone]
    decide +kernel
  · rw [hgone]
    decide +kernel
  · rw [hgone]
    decide +kernel
  · cases hlook.symm.trans hline
    rfl

/-- A renaming of the text of the second drive takes the one of the first drive instead, and a
source named as a program is lost when it is assembled. -/
theorem exists_unnamed_changes :
    let move := "REN X.TXT=B:Y.TXT".toList
    let moved := (execute move twoDrives).1.disk
    let assembly := "ASM B:P.COM".toList
    let assembled := (execute assembly twoDrives).1.disk
    (commandOf? move = some (.rename, "X.TXT=B:Y.TXT".toList) ∧
        sides? "X.TXT=B:Y.TXT".toList = some ("X.TXT".toList, "B:Y.TXT".toList) ∧
        fileArgument? twoDrives.disk "B:Y.TXT".toList = some (1, "Y.TXT") ∧
        moved.file? 1 "Y.TXT" = twoDrives.disk.file? 1 "Y.TXT" ∧
        twoDrives.disk.file? 0 "Y.TXT" = some #[0x31] ∧ moved.file? 0 "Y.TXT" = none) ∧
      commandOf? assembly = some (.assemble, "B:P.COM".toList) ∧
        fileArgument? twoDrives.disk "B:P.COM".toList = some (1, "P.COM") ∧
        sourceName "P.COM" = "P.COM" ∧
        twoDrives.disk.file? 1 "P.COM" = some #[0x3B] ∧ assembled.file? 1 "P.COM" = some #[] := by
  decide +kernel

end CommandLine

end Cpm80
