import Cpm80.CommandLine
import Cpm80.Proofs.FileBlocks
import Cpm80.Proofs.FileNames
import Cpm80.Proofs.Images
import Cpm80.Proofs.SequentialAccess
import Cpm80.Proofs.TextBytes

/-!
# From a source file to a loaded program

The command line assembles a source file into a program file and starts a program by the name
of its file. The program file begins at the start of the program area, whatever the origin of
its image, and the arguments of the program are put below that area. So the image of a faultless
source arrives where a session would have loaded it directly.
-/
namespace Cpm80

open Text

namespace Station

variable (s : Station)

@[simp] theorem memory_onMemory (f : Memory → Memory) : (s.onMemory f).memory = f s.memory := rfl

@[simp] theorem disk_onMemory (f : Memory → Memory) : (s.onMemory f).disk = s.disk := rfl

@[simp] theorem console_onMemory (f : Memory → Memory) : (s.onMemory f).console = s.console := rfl

@[simp] theorem disk_onUsage (f : Usage → Usage) : (s.onUsage f).disk = s.disk := rfl

@[simp] theorem disk_onDisk (f : DiskSystem → DiskSystem) : (s.onDisk f).disk = f s.disk := rfl

@[simp] theorem disk_printLine (text : String) : (s.printLine text).disk = s.disk := rfl

end Station

namespace CommandLine

open FileName

/-- A name that a program can be called by: it names a file, is one word without a dot and does
not stand for a built-in command. -/
structure IsProgramName (name : List Char) : Prop where
  valid : (normalize? (String.ofList name)).isSome
  unbroken : Unbroken name
  undotted : '.' ∉ name
  unreserved : Command.ofWord (upper name) = .program (upper name)

namespace IsProgramName

variable {name : List Char}

theorem ne_nil_and_allowed (h : IsProgramName name) :
    name ≠ [] ∧ name.any isForbidden = false := by
  have hvalid := h.valid
  rw [normalize?_of_unbroken h.unbroken] at hvalid
  split at hvalid
  case isTrue hbad => cases hvalid
  case isFalse hgood =>
    rw [not_or, not_or, not_or, Bool.not_eq_true] at hgood
    exact ⟨hgood.1, hgood.2.2.2⟩

theorem undotted_upper (h : IsProgramName name) : '.' ∉ Text.upper name := by
  rw [mem_upper_iff (by decide)]
  exact h.undotted

theorem contains_upper (h : IsProgramName name) : (Text.upper name).contains '.' = false := by
  rw [Bool.eq_false_iff, Ne, List.contains_iff_mem]
  exact h.undotted_upper

theorem upper (h : IsProgramName name) : IsProgramName (upper name) where
  valid := by
    obtain ⟨hne, hallowed⟩ := h.ne_nil_and_allowed
    have hallowedUpper : (Text.upper name).any isForbidden = false :=
      (any_isForbidden_upper name).trans hallowed
    rw [normalize?_of_unbroken h.unbroken.upper, if_neg]
    · rfl
    · rintro (hnil | hdot | hdots | hbad)
      · exact upper_ne_nil hne hnil
      · exact h.undotted_upper (hdot ▸ List.mem_cons_self)
      · exact h.undotted_upper (hdots ▸ List.mem_cons_self)
      · rw [hallowedUpper] at hbad
        cases hbad
  unbroken := h.unbroken.upper
  undotted := h.undotted_upper
  unreserved := by
    rw [upper_upper]
    exact h.unreserved

/-- The file of that base name with one of the extensions that the command line gives. -/
theorem normalize?_extended (h : IsProgramName name) (extension : List Char)
    (hupper : Text.upper extension = extension) (hunbroken : Unbroken extension)
    (hlength : extension.length = 4) (hallowed : extension.any isForbidden = false) :
    normalize? (String.ofList (name ++ extension)) =
      some (String.ofList (Text.upper name ++ extension)) := by
  obtain ⟨hne, hallowedName⟩ := h.ne_nil_and_allowed
  have hlong : 4 < (name ++ extension).length := by
    have := List.length_pos_iff.mpr hne
    rw [List.length_append]
    omega
  rw [normalize?_of_unbroken (h.unbroken.append hunbroken), if_neg, upper_append, hupper]
  rintro (hnil | hdot | hdots | hbad)
  · simp [hnil] at hlong
  · simp [hdot] at hlong
  · simp [hdots] at hlong
  · rw [List.any_append, hallowedName, hallowed] at hbad
    cases hbad

/-- The base of a short name, other than the words of the built-in commands. -/
theorem of_isShort (hshort : isShort (String.ofList name))
    (hvalid : (normalize? (String.ofList name)).isSome) (hundotted : '.' ∉ name)
    (hunreserved : Command.ofWord (Text.upper name) = .program (Text.upper name)) :
    IsProgramName name := by
  refine ⟨hvalid, ?_, hundotted, hunreserved⟩
  intro c hc
  simp only [isShort, Bool.and_eq_true, String.toList_ofList, List.all_eq_true] at hshort
  have hplain := hshort.2 c hc
  simp only [isPlain, Bool.and_eq_true, decide_eq_true_eq] at hplain
  rw [Bool.eq_false_iff, Ne]
  simp only [isBlank, Bool.or_eq_true, Bool.and_eq_true, decide_eq_true_eq]
  omega

end IsProgramName

variable {name : List Char}

/-! ## Reading the commands -/

/-- A word alone is a command without arguments. -/
theorem execute_word {word : List Char} (hword : Unbroken word) (hne : word ≠ []) (s : Station) :
    execute word s = perform (Command.ofWord (upper word)) [] s := by
  rw [execute, trim_of_tight hword.tight, splitWord_of_unbroken hword hne]
  simp only [trim_nil, List.isEmpty_iff, if_neg hne]

/-- What follows the first word is the argument of the command. -/
theorem execute_of_tight {word argument : List Char} (hword : Unbroken word) (hne : word ≠ [])
    (hargument : Tight argument) (hsome : argument ≠ []) (s : Station) :
    execute (word ++ ' ' :: argument) s =
      perform (Command.ofWord (upper word)) argument s := by
  rw [execute, trim_of_tight (tight_words hword hne hargument hsome),
    splitWord_append hword hne (by simp [isBlank])]
  simp only [trim_space_cons hargument, List.isEmpty_iff, if_neg hne]

/-- Two words are a command and its argument. -/
theorem execute_words {word argument : List Char} (hword : Unbroken word) (hne : word ≠ [])
    (hargument : Unbroken argument) (hsome : argument ≠ []) (s : Station) :
    execute (word ++ ' ' :: argument) s =
      perform (Command.ofWord (upper word)) argument s :=
  execute_of_tight hword hne hargument.tight hsome s

/-- An argument without a drive letter is a name on the current drive. -/
theorem fileArgument?_of_unbroken {argument : List Char} (h : Unbroken argument)
    (hcolon : ':' ∉ argument) (d : DiskSystem) :
    fileArgument? d argument = some (d.current, String.ofList (upper argument)) := by
  have hupper : ':' ∉ upper argument := by
    rwa [mem_upper_iff (by decide)]
  simp only [fileArgument?, trim_of_tight h.tight]
  split
  case h_1 letter rest heq =>
    rw [heq] at hupper
    simp at hupper
  case h_2 hother => rfl

theorem fileArgument?_of_isProgramName (h : IsProgramName name) (d : DiskSystem) :
    fileArgument? d name = some (d.current, String.ofList (upper name)) := by
  apply fileArgument?_of_unbroken h.unbroken
  intro hmem
  have hallowed := List.any_eq_false.mp h.ne_nil_and_allowed.2 ':' hmem
  exact hallowed rfl

/-! ## The two commands -/

/-- The name of the program file that is made from a source file. -/
def outputName (name : List Char) : String :=
  String.ofList (upper name) ++ ".COM"

theorem normalize?_source (h : IsProgramName name) :
    normalize? (String.ofList name ++ ".ASM") =
      some (String.ofList (upper name) ++ ".ASM") := by
  have hextended := h.normalize?_extended ['.', 'A', 'S', 'M'] rfl (by decide) rfl (by decide)
  rwa [String.ofList_append, String.ofList_append] at hextended

theorem normalize?_output (h : IsProgramName name) :
    normalize? (outputName name) = some (outputName name) := by
  have hextended := h.upper.normalize?_extended ['.', 'C', 'O', 'M'] rfl (by decide) rfl
    (by decide)
  rwa [upper_upper, String.ofList_append] at hextended

section

variable {s : Station} {files : Files} {text : List Char}

/-- A faultless source on a drive in memory becomes a program file there. -/
theorem assembleFile_of_isOk (hname : IsProgramName name)
    (hdrive : s.disk.drive? s.disk.current = some (.memory files))
    (hsource : (Drive.memory files).get? (String.ofList name ++ ".ASM") =
      some (Utf8.encode text).toArray)
    (hmark : '\x1a' ∉ text) (hok : (Assembly.ofText text programStart).isOk)
    (horigin : programStart ≤ (Assembly.ofText text programStart).origin) :
    let file := programFile (Assembly.ofText text programStart)
    assembleFile name s =
      ((s.onUsage fun u => u.addAssembly true).onDisk fun d =>
        d.setDrive d.current (.memory (files.insert (outputName name) file))).printLine
          (outputName name ++ ": " ++ file.size.repr ++ " BYTES") := by
  intro file
  have hne : name.isEmpty = false := List.isEmpty_eq_false_iff.mpr hname.ne_nil_and_allowed.1
  have hbase : (upper name).takeWhile (· ≠ '.') = upper name :=
    takeWhile_ne_of_notMem hname.undotted_upper
  have hfile : s.disk.file? s.disk.current (String.ofList (upper name) ++ ".ASM") =
      some (Utf8.encode text).toArray := by
    have hupper := normalize?_source hname.upper
    rw [upper_upper] at hupper
    rw [Drive.get?, normalize?_source hname] at hsource
    rw [DiskSystem.file?, hdrive, Option.bind_some, Drive.get?, hupper]
    exact hsource
  have hread : (Utf8.decodeLenient (Utf8.encode text)).takeWhile (· ≠ '\x1a') = text := by
    rw [Utf8.decodeLenient_encode, takeWhile_ne_of_notMem hmark]
  have hsave : s.disk.saveFile s.disk.current (outputName name) file =
      (s.disk.setDrive s.disk.current (.memory (files.insert (outputName name) file)),
        some none) := by
    simp only [DiskSystem.saveFile, hdrive, Drive.memory_save, Files.save, FileName.normalize,
      normalize?_output hname]
    rfl
  have hlow : ¬(Assembly.ofText text programStart).origin < programStart :=
    UInt16.not_lt.mpr horigin
  rw [assembleFile, if_neg (by simp [hne])]
  simp only [fileArgument?_of_isProgramName hname, String.toList_ofList, hbase,
    hname.contains_upper, Bool.false_eq_true, if_false, hfile, hread, hok, Bool.not_true,
    if_neg hlow]
  obtain ⟨m, d, c, u⟩ := s
  change reportSaved (d.saveFile d.current (outputName name) file).2 _
    (Station.onDisk (fun _ => (d.saveFile d.current (outputName name) file).1) _) = _
  rw [hsave]
  rfl

/-- A program file on the drive is found under its name. -/
theorem findProgram?_of_isProgramName (hname : IsProgramName name) (d : DiskSystem) :
    findProgram? d (upper name) = d.file? d.current (outputName name) := by
  have hsuffix : programSuffix.isSuffixOf (upper name) = false := by
    rw [Bool.eq_false_iff, Ne, List.isSuffixOf_iff_suffix]
    intro hsuffix
    exact hname.undotted_upper (hsuffix.subset List.mem_cons_self)
  have hvalid : (normalize? (String.ofList (upper name))).isNone = false := by
    rw [Option.isNone_eq_false_iff]
    exact hname.upper.valid
  have hfile : programFileName? (String.ofList (upper name)) = some (outputName name) := by
    simp only [programFileName?, String.toList_ofList, hname.contains_upper, hsuffix, hvalid]
    rfl
  simp only [findProgram?, fileArgument?_of_isProgramName hname.upper, upper_upper, hfile,
    Option.bind_eq_bind, Option.bind_some]

/-- Nothing from the start of the program area on is touched by the arguments. -/
theorem read_prepareTail (m : Memory) (tail : List Char) {a : UInt16}
    (ha : programStart.toNat ≤ a.toNat) : (prepareTail m tail).read a = m.read a := by
  have hstart : 256 ≤ a.toNat := ha
  let text := if (upper tail).isEmpty then [] else
    (Utf8.encode (' ' :: upper tail)).take maxTail
  have hlength : text.length ≤ 127 := by
    dsimp only [text]
    split
    case isTrue hempty => exact Nat.zero_le _
    case isFalse hsome => exact List.length_take_le _ _
  have hbuffer : ∀ i < (UInt8.ofNat text.length :: text).length,
      a ≠ tailBuffer + UInt16.ofNat i := by
    intro i hi
    rw [List.length_cons] at hi
    have hbelow : tailBuffer.toNat = 128 := rfl
    exact Memory.ne_add_ofNat_of_lt (by omega)
  have hblock : ∀ i < FileControlBlock.length, a ≠ defaultBlock + UInt16.ofNat i := by
    intro i hi
    rw [FileControlBlock.length] at hi
    have hbelow : defaultBlock.toNat = 92 := rfl
    exact Memory.ne_add_ofNat_of_lt (by omega)
  rw [prepareTail]
  exact (Memory.read_place_of_ne _ _ _ _ hbuffer).trans
    (FileControlBlock.read_write_named_of_ne hblock)

/-- A program file that fits is loaded and started. -/
theorem loadProgram_of_fits {word tail : List Char} {image : Array UInt8}
    (hfound : findProgram? s.disk word = some image)
    (hfits : Memory.Fits programStart image.size) :
    loadProgram word tail s =
      (s.onMemory fun m => prepareTail (m.place programStart image.toList) tail,
        .run programStart) := by
  obtain ⟨m, d, c, u⟩ := s
  have hload : m.load programStart image.toList = .ok (m.place programStart image.toList) :=
    if_pos hfits
  rw [loadProgram, hfound]
  simp only [hload]
  rfl

end

/-! ## Where the image is -/

section

variable {a : Assembly}

theorem size_programFile (horigin : programStart ≤ a.origin) :
    programStart.toNat + (programFile a).size = a.origin.toNat + a.image.size := by
  have hstart : programStart.toNat ≤ a.origin.toNat := UInt16.le_iff_toNat_le.mp horigin
  rw [programFile, Array.size_append, Array.size_replicate]
  omega

/-- The gap in front of the image is as long as the program area is before its origin. -/
theorem slice_programFile (horigin : programStart ≤ a.origin)
    (hfits : a.origin.toNat + a.image.size ≤ 65536) (m : Memory) :
    (m.place programStart (programFile a).toList).slice a.origin a.image.size =
      a.image.toList := by
  have hstart : programStart.toNat ≤ a.origin.toNat := UInt16.le_iff_toNat_le.mp horigin
  have hsize := size_programFile horigin
  have hlength : (programFile a).toList.length ≤ 65536 := by
    rw [Array.length_toList]
    omega
  apply List.ext_getElem
  · rw [Memory.length_slice, Array.length_toList]
  · intro i hi hlt
    rw [Array.length_toList] at hlt
    have hplace : a.origin + UInt16.ofNat i =
        programStart + UInt16.ofNat (a.origin.toNat - programStart.toNat + i) := by
      apply UInt16.toNat_inj.mp
      simp only [UInt16.toNat_add, UInt16.toNat_ofNat']
      omega
    have hinside : a.origin.toNat - programStart.toNat + i < (programFile a).toList.length := by
      rw [Array.length_toList]
      omega
    simp only [Memory.slice, List.getElem_map, List.getElem_range]
    rw [hplace, Memory.read_place m _ hlength hinside]
    simp only [programFile, Array.toList_append, Array.toList_replicate]
    rw [List.getElem_append_right (by simp)]
    simp

end

/-! ## The program in memory -/

/-- The current drive lies in memory and holds a text as the source file of a name. -/
def HoldsSource (s : Station) (name text : List Char) : Prop :=
  ∃ files, s.disk.drive? s.disk.current = some (.memory files) ∧
    (Drive.memory files).get? (String.ofList name ++ ".ASM") = some (Utf8.encode text).toArray

/-- A faultless source file, assembled and started by its name, is a program in memory. -/
theorem start_assembled {s : Station} {text : List Char} (hname : IsProgramName name)
    (hsource : HoldsSource s name text) (hmark : '\x1a' ∉ text)
    (hok : (Assembly.ofText text programStart).isOk) (hcountable : Assembly.IsCountable text)
    (horigin : programStart ≤ (Assembly.ofText text programStart).origin) :
    let a := Assembly.ofText text programStart
    let assembled := execute ("ASM".toList ++ ' ' :: name) s
    let started := execute name assembled.1
    started.2 = .run programStart ∧ started.1.console = assembled.1.console ∧
      started.1.memory.slice a.origin a.image.size = a.image.toList := by
  intro a assembled started
  obtain ⟨files, hdrive, hsource⟩ := hsource
  have hne := hname.ne_nil_and_allowed.1
  have hassembled : assembled.1 = assembleFile name s := by
    have hword : Command.ofWord (upper "ASM".toList) = .assemble := by decide
    have hcommand : assembled = perform (Command.ofWord (upper "ASM".toList)) name s :=
      execute_words (by decide) (by decide) hname.unbroken hne s
    rw [hcommand, hword, perform]
  have hstarted : started = loadProgram (upper name) [] assembled.1 := by
    have hcommand : started = perform (Command.ofWord (upper name)) [] assembled.1 :=
      execute_word hname.unbroken hne _
    rw [hcommand, hname.unreserved, perform]
  rw [assembleFile_of_isOk hname hdrive hsource hmark hok horigin] at hassembled
  have hfound : findProgram? assembled.1.disk (upper name) = some (programFile a) := by
    have hdisk := congrArg Station.disk hassembled
    rw [Station.disk_printLine, Station.disk_onDisk, Station.disk_onUsage] at hdisk
    have hget : (Drive.memory (files.insert (outputName name) (programFile a))).get?
        (outputName name) = some (programFile a) := by
      rw [Drive.get?, normalize?_output hname, Option.bind_some]
      exact (SortedMap.get?_insert files _ _ _).trans (if_pos rfl)
    have hcurrent : assembled.1.disk.current = s.disk.current := by
      rw [hdisk, DiskSystem.setDrive]
    rw [findProgram?_of_isProgramName hname, DiskSystem.file?, hcurrent, hdisk,
      DiskSystem.drive?_setDrive hdrive, Option.bind_some]
    exact hget
  have hsize : programStart.toNat + (programFile a).size = a.origin.toNat + a.image.size :=
    size_programFile horigin
  have himage : a.origin.toNat + a.image.size ≤ 65536 := Assembly.image_fits hok hcountable
  have hfits : Memory.Fits programStart (programFile a).size := by
    rw [Memory.Fits, hsize]
    exact himage
  rw [hstarted, loadProgram_of_fits hfound hfits]
  refine ⟨rfl, Station.console_onMemory _ _, ?_⟩
  rw [Station.memory_onMemory, ← slice_programFile horigin himage assembled.1.memory]
  apply Memory.slice_congr
  intro i hi
  have hstart : programStart.toNat ≤ a.origin.toNat := UInt16.le_iff_toNat_le.mp horigin
  apply read_prepareTail
  rw [UInt16.toNat_add, UInt16.toNat_ofNat']
  omega

end CommandLine

namespace Assembly

open CommandLine Assembler

/-- A faultless assembly loads, whether a session takes its text or the command line takes it from
a file, as long as no string is too long for the counter: the image lies in memory as a whole,
a session puts it there and changes no other cell, and the program that is made from the source file
has it at the same place when it starts. With such a string the image does not fit, and a session
refuses it. -/
theorem loads_of_isOk {text : List Char} {origin : UInt16} (h : (ofText text origin).isOk) :
    let a := ofText text origin
    (a.origin.toNat + a.image.size ≤ 65536 ↔ IsCountable text) ∧
      (IsCountable text → ∀ s : Session,
        let before := s.computer.station.memory
        let after := (s.assemble text origin).1.computer.station.memory
        (s.assemble text origin).2 = .ok a ∧
          after.slice a.origin a.image.size = a.image.toList ∧
          ∀ b, (∀ i < a.image.size, b ≠ a.origin + UInt16.ofNat i) → after.read b = before.read b) ∧
      (¬IsCountable text →
        ∀ s : Session, (s.assemble text origin).2 = .error ⟨a.origin, a.image.size⟩) ∧
      (IsCountable text → origin = programStart → programStart ≤ a.origin → '\x1a' ∉ text →
        ∀ (st : Station) (name : List Char), IsProgramName name → HoldsSource st name text →
          let assembled := execute ("ASM".toList ++ ' ' :: name) st
          let started := execute name assembled.1
          started.2 = .run programStart ∧ started.1.console = assembled.1.console ∧
            ∀ s : Session,
              let loaded := (s.assemble text origin).1.computer.station.memory
              started.1.memory.slice a.origin a.image.size =
                loaded.slice a.origin a.image.size) := by
  intro a
  have hassembled (hcountable : IsCountable text) (s : Session) :=
    Session.assemble_of_isOk h hcountable s
  have hloaded (hcountable : IsCountable text) (s : Session) :
      (s.assemble text origin).1.computer.station.memory =
        s.computer.station.memory.place a.origin a.image.toList := by
    rw [hassembled hcountable]
    rfl
  have himage (hcountable : IsCountable text) (s : Session) :
      (s.assemble text origin).1.computer.station.memory.slice a.origin a.image.size =
        a.image.toList := by
    have hfits : a.origin.toNat + a.image.size ≤ 65536 := image_fits h hcountable
    rw [hloaded hcountable, ← Array.length_toList, Memory.slice_place_self]
    rw [Array.length_toList]
    omega
  refine ⟨image_fits_iff h, ?session, Session.assemble_of_not_isCountable h, ?commandLine⟩
  case session =>
    intro hcountable s
    refine ⟨congrArg Prod.snd (hassembled hcountable s), himage hcountable s, ?_⟩
    intro b hb
    rw [hloaded hcountable]
    apply Memory.read_place_of_ne
    rwa [Array.length_toList]
  case commandLine =>
    rintro hcountable rfl horigin hmark st name hname hsource
    obtain ⟨hrun, hconsole, hstarted⟩ := start_assembled hname hsource hmark h hcountable horigin
    refine ⟨hrun, hconsole, ?_⟩
    intro s
    exact hstarted.trans (himage hcountable s).symm

/-- A source whose image is the last cell of memory. -/
def topSource : List Char := "ORG 0FFFFH\nHLT\n".toList

/-- A computer with that source on its only drive. -/
def topStation : Station :=
  .ofDrives [.memory (SortedMap.empty.insert "TOP.ASM" (Utf8.encode topSource).toArray)]

theorem loads_of_isOk_topSource :
    (ofText topSource programStart).isOk ∧ IsCountable topSource ∧ IsProgramName "Top".toList ∧
      HoldsSource topStation "Top".toList topSource ∧
      let started := execute "Top".toList (execute "ASM Top".toList topStation).1
      started.2 = .run programStart ∧ started.1.memory.read 0xFFFF = 0x76 := by
  have hok : (ofText topSource programStart).isOk := by decide +kernel
  have horigin : (ofText topSource programStart).origin = 0xFFFF := by decide +kernel
  have himage : (ofText topSource programStart).image = #[0x76] := by decide +kernel
  have hname : IsProgramName "Top".toList :=
    .of_isShort (by decide +kernel) (by decide +kernel) (by decide) (by decide)
  have hsource : HoldsSource topStation "Top".toList topSource :=
    ⟨_, rfl, by decide +kernel⟩
  have hcountable : IsCountable topSource := by decide +kernel
  obtain ⟨-, hsession, -, hcommands⟩ := loads_of_isOk hok
  obtain ⟨hrun, -, hsame⟩ := hcommands hcountable rfl (by rw [horigin]; decide) (by decide)
    topStation "Top".toList hname hsource
  have hcell := (hsame (.ofDrives [])).trans (hsession hcountable (.ofDrives [])).2.1
  rw [horigin, himage] at hcell
  refine ⟨hok, hcountable, hname, hsource, hrun, ?_⟩
  exact (List.cons.inj hcell).1

/-- A source with a string of 2^32 bytes is assembled without a fault but not loaded. -/
theorem longString_refused :
    let l := DataLine.ofLength (2 ^ 32)
    let a := ofText l.text 0x0100
    l.text = "DB '".toList ++ List.replicate (2 ^ 32) 'A' ++ ['\''] ∧
      a.isOk ∧ ¬a.origin.toNat + a.image.size ≤ 65536 ∧
      ((Session.ofDrives []).assemble l.text 0x0100).2 = .error ⟨0x0100, 2 ^ 32⟩ := by
  have hmod : ((0x0100 : UInt16).toNat + 2 ^ 32) % 2 ^ 32 ≤ 65536 := by decide
  obtain ⟨hok, horigin, hsize⟩ := DataLine.ofText_ofLength hmod
  have hlong : ¬(ofText (DataLine.ofLength (2 ^ 32)).text 0x0100).origin.toNat +
      (ofText (DataLine.ofLength (2 ^ 32)).text 0x0100).image.size ≤ 65536 := by
    rw [horigin, hsize]
    decide
  have hrefused := Session.assemble_of_not_isCountable hok (mt (image_fits_iff hok).mpr hlong)
    (Session.ofDrives [])
  dsimp only at hrefused
  rw [horigin, hsize] at hrefused
  exact ⟨DataLine.text_ofLength _, hok, hlong, hrefused⟩

end Assembly

end Cpm80
