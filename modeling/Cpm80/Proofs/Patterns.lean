import Cpm80.Proofs.DirectorySearch
import Cpm80.Proofs.PaddedNames
import Cpm80.Proofs.ProgramFiles

/-!
# Patterns on the command line and in control blocks

The command line matches the names on a drive against a pattern as it is typed, while a system
call reads the pattern back from a control block. The padded form is the same both times, so a
listing shows the entries that a search reports, in their order, and the command that erases
deletes what the call deletes.
-/
namespace Cpm80

open Text

/-- A pattern as it can be typed for the current drive: one word of printable characters without
a colon, with at most one dot. -/
structure IsPattern (pattern : List Char) : Prop where
  ne_nil : pattern ≠ []
  printable : Printable pattern
  colonless : ':' ∉ pattern
  dots : pattern.count '.' ≤ 1

namespace IsPattern

variable {pattern : List Char}

theorem unbroken (h : IsPattern pattern) : Unbroken pattern :=
  h.printable.unbroken

theorem isMatch_upper (h : IsPattern pattern) (name : String) :
    FileName.isMatch name (String.ofList (upper pattern)) =
      FileName.isMatch name (String.ofList pattern) := by
  have hupper : FileName.padded (String.ofList (upper pattern)) =
      FileName.padded (String.ofList pattern) := by
    rw [FileName.padded_of_split h.unbroken rfl, FileName.padded_of_split h.unbroken.upper rfl,
      upper_upper]
  rw [FileName.isMatch, FileName.isMatch, hupper]

/-- A pattern matches the same names when it has been through a control block. -/
theorem isMatch_ofPadded (h : IsPattern pattern) (name : String) :
    FileName.isMatch name (FileName.ofPadded (FileName.padded (String.ofList pattern))) =
      FileName.isMatch name (String.ofList pattern) := by
  rw [FileName.isMatch, FileName.isMatch, FileName.padded_ofPadded h.printable h.dots]

end IsPattern

theorem Files.get?_eraseAll_filter (f : Files) (p : String → Bool) (name : String) :
    (f.eraseAll (f.keys.filter p)).get? name = if p name then none else f.get? name := by
  simp only [Files.get?_eraseAll, List.mem_filter, SortedMap.mem_keys_iff]
  by_cases hthere : f.contains name = true
  · simp only [hthere, true_and]
  · have hnone : f.get? name = none := by simpa [SortedMap.contains] using hthere
    simp only [hthere, Bool.false_eq_true, false_and, hnone, ite_self]

/-! ## System calls -/

namespace SystemCall

/-- The entries that a program finds at the transfer address when it looks until a look fails,
from the outcome of its first look on. -/
inductive Enumerates (parameter : UInt16) : Station × UInt16 → List (List UInt8) → Prop
  | done {s : Station} {answer : UInt16} (h : answer ≠ Answer.success) :
      Enumerates parameter (s, answer) []
  | entry {s : Station} {entries : List (List UInt8)}
      (h : Enumerates parameter (perform 18 parameter s) entries) :
      Enumerates parameter (s, Answer.success) (s.memory.slice s.disk.transfer 12 :: entries)

theorem enumerates_of_searchNext {s : Station} {f : DiskSystem → Memory → DiskSystem.Reply}
    {found : List String} (parameter : UInt16)
    (h : f s.disk s.memory = DiskSystem.searchNext { s.disk with found } s.memory) :
    Enumerates parameter (s.onFiles f) (found.map (entryOf s.disk.user)) := by
  induction found generalizing s f with
  | nil =>
    rw [Station.onFiles_eq h]
    exact .done (by decide)
  | cons name rest ih =>
    -- the entry is read off before the next look, which may put its own over it
    obtain ⟨left, hleft, hdisk, hmemory⟩ := exists_onFiles_of_searchNext h
    have hslice : left.memory.slice left.disk.transfer 12 = entryOf s.disk.user name := by
      have hplaced := Memory.slice_place_self s.memory s.disk.transfer
        (entryOf s.disk.user name) (by simp)
      rw [length_entryOf] at hplaced
      rw [hmemory, hdisk]
      exact hplaced
    have hlook : Enumerates parameter (perform 18 parameter left)
        (rest.map (entryOf left.disk.user)) := by
      rw [perform_look]
      exact ih (by rw [hdisk])
    rw [hdisk] at hlook
    rw [hleft, List.map_cons, ← hslice]
    exact .entry hlook

end SystemCall

namespace DiskSystem

variable {d : DiskSystem} {m : Memory} {fcb : UInt16} {index : Nat} {files : Files}

theorem setDrive_setDrive (d : DiskSystem) (index : Nat) (drive left : Drive) :
    (d.setDrive index drive).setDrive index left = d.setDrive index left := by
  rw [setDrive, setDrive, setDrive, List.set_set]

/-- A block for the current drive, under either of its drive bytes. -/
theorem selected?_write {current : Drive} (h : d.drive? d.current = some current) {drive : UInt8}
    (hdrive : drive = 0 ∨ drive.toNat = d.current + 1) (name : String) :
    d.selected? (FileControlBlock.write m fcb drive name) fcb = some (d.current, current) := by
  have hindex : (if drive.toNat = 0 then d.current else drive.toNat - 1) = d.current := by
    rcases hdrive with rfl | hnumber
    · rfl
    · rw [hnumber, if_neg (by omega), Nat.add_sub_cancel]
  rw [selected?, FileControlBlock.driveByte_write, hindex, h, Option.map_some]

theorem disk_deleteFiles (hselected : d.selected? m fcb = some (index, .memory files))
    (hnormal : files.Normal) :
    (d.deleteFiles m fcb).disk = d.setDrive index (.memory (files.eraseAll
      (files.keys.filter fun name => FileName.isMatch name (FileControlBlock.name m fcb)))) := by
  have hdrive := drive?_of_selected? hselected
  have hdeleted := deleteAll_matching hnormal (FileControlBlock.name m fcb)
  simp only [deleteFiles, hselected, filesMatching_eq hdrive]
  dsimp only at hdeleted
  split
  case h_1 hnone =>
    have hkeys : files.keys.filter (fun name =>
      FileName.isMatch name (FileControlBlock.name m fcb)) = [] := hnone
    rw [hkeys]
    exact (setDrive_self hdrive).symm
  case h_2 hsome => exact congrArg (fun r => d.setDrive index r.1) hdeleted

end DiskSystem

/-! ## Commands -/

namespace CommandLine

/-- The end of a line on the screen. -/
def lineEnd : List UInt8 := [carriageReturn, lineFeed]

/-- The line of a listing for an entry of a search: the base and the extension of its name. -/
def entryLine (letter : Char) (entry : List UInt8) : List UInt8 :=
  Utf8.encode [letter, ':', ' '] ++ (entry.drop 1).take 8 ++ 0x20 :: entry.drop 9 ++ lineEnd

/-- What a listing shows for the entries of a search. -/
def listing (letter : Char) : List (List UInt8) → List UInt8
  | [] => Utf8.encode "NO FILE".toList ++ lineEnd
  | entries => entries.flatMap (entryLine letter)

theorem listing_of_ne_nil {entries : List (List UInt8)} (h : entries ≠ []) (letter : Char) :
    listing letter entries = entries.flatMap (entryLine letter) := by
  cases entries with
  | nil => exact absurd rfl h
  | cons entry rest => rfl

theorem printLine_eq (s : Station) (text : String) :
    s.printLine text = s.onConsole fun c => c.putBytes (Utf8.encode text.toList ++ lineEnd) := by
  obtain ⟨m, d, c, u⟩ := s
  exact congrArg (Station.mk m d · u) (c.putBytes_putBytes _ lineEnd)

theorem entryLine_entryOf {name : String} (h : Ascii name.toList) (letter : Char) (user : UInt8) :
    entryLine letter (SystemCall.entryOf user name) =
      Utf8.encode (directoryLine letter name).toList ++ lineEnd := by
  obtain ⟨base, extension, hpadded, hlength⟩ := FileName.exists_texts_padded h
  have hline : (directoryLine letter name).toList =
      [letter, ':', ' '] ++ base ++ ' ' :: extension := by
    rw [directoryLine, String.toList_ofList, hpadded, List.take_left' hlength,
      List.drop_left' hlength, Utf8.decodeLenient_encode, Utf8.decodeLenient_encode]
  have hspace : Utf8.encode (' ' :: extension) = 0x20 :: Utf8.encode extension := rfl
  have hbase : (FileName.padded name).take 8 = Utf8.encode base := by
    rw [hpadded, List.take_left' hlength]
  have hextension : (FileName.padded name).drop 8 = Utf8.encode extension := by
    rw [hpadded, List.drop_left' hlength]
  rw [hline, Utf8.encode_append, Utf8.encode_append, hspace, ← hbase, ← hextension, entryLine,
    SystemCall.entryOf, List.drop_succ_cons, List.drop_zero, List.drop_succ_cons]

/-- The lines of a directory listing are those of the entries that a search reports. -/
theorem foldl_printLine {names : List String} (h : ∀ name ∈ names, Ascii name.toList)
    (letter : Char) (user : UInt8) (s : Station) :
    names.foldl (fun s name => s.printLine (directoryLine letter name)) s =
      s.onConsole fun c =>
        c.putBytes ((names.map (SystemCall.entryOf user)).flatMap (entryLine letter)) := by
  induction names generalizing s with
  | nil => rfl
  | cons name rest ih =>
    obtain ⟨hname, hrest⟩ := List.forall_mem_cons.mp h
    rw [List.foldl_cons, ih hrest, printLine_eq, ← entryLine_entryOf hname letter user,
      List.map_cons, List.flatMap_cons]
    exact congrArg (Station.mk s.memory s.disk · s.usage) (s.console.putBytes_putBytes _ _)

variable {s : Station} {files : Files} {pattern : List Char}

/-- The names on a drive in memory that match a pattern. -/
def matching (files : Files) (pattern : List Char) : List String :=
  files.keys.filter fun name => FileName.isMatch name (String.ofList pattern)

theorem filesMatching_upper (hpattern : IsPattern pattern) {index : Nat} {d : DiskSystem}
    (hdrive : d.drive? index = some (.memory files)) :
    d.filesMatching index (String.ofList (upper pattern)) = matching files pattern := by
  rw [DiskSystem.filesMatching_eq hdrive, matching]
  simp only [hpattern.isMatch_upper]
  rfl

theorem listDirectory_eq (hpattern : IsPattern pattern)
    (hdrive : s.disk.drive? s.disk.current = some (.memory files))
    (hascii : ∀ name ∈ files.keys, Ascii name.toList) {letter : Char}
    (hletter : driveLetter? s.disk.current = some letter) :
    listDirectory pattern s =
      (s.onConsole fun c => c.putBytes (listing letter
        ((matching files pattern).map (SystemCall.entryOf s.disk.user))), .done) := by
  have hsome : pattern.isEmpty = false := List.isEmpty_eq_false_iff.mpr hpattern.ne_nil
  have hupper : (String.ofList (upper pattern)).isEmpty = false := by
    rw [Bool.eq_false_iff, Ne, String.isEmpty_iff, ← String.toList_eq_nil_iff, String.toList_ofList]
    exact upper_ne_nil hpattern.ne_nil
  have hnames : ∀ name ∈ matching files pattern, Ascii name.toList :=
    fun name hname => hascii name (List.mem_filter.mp hname).1
  simp only [listDirectory, hsome, Bool.false_eq_true, if_false,
    fileArgument?_of_unbroken hpattern.unbroken hpattern.colonless, hupper,
    filesMatching_upper hpattern hdrive]
  split
  case h_1 hnone => rw [hnone, printLine_eq, List.map_nil, listing]
  case h_2 hfound =>
    rw [hletter]
    have hentries : (matching files pattern).map (SystemCall.entryOf s.disk.user) ≠ [] :=
      fun hnil => hfound (List.map_eq_nil_iff.mp hnil)
    rw [listing_of_ne_nil hentries, ← foldl_printLine hnames]

/-- Erasing one file after another on the command line comes to deleting them all, if that
succeeds. -/
theorem eraseAll_of_deleteAll {index : Nat} {drive left : Drive} {names : List String}
    (hdrive : s.disk.drive? index = some drive)
    (hdeleted : DiskSystem.deleteAll drive names = (left, none)) :
    eraseAll index s names = s.onDisk fun d => d.setDrive index left := by
  induction names generalizing s drive with
  | nil =>
    cases hdeleted
    exact congrArg (Station.mk s.memory · s.console s.usage) (DiskSystem.setDrive_self hdrive).symm
  | cons name rest ih =>
    rw [DiskSystem.deleteAll] at hdeleted
    split at hdeleted
    case h_1 next hfirst =>
      rw [eraseAll, hdrive]
      simp only [hfirst]
      rw [ih (DiskSystem.drive?_setDrive hdrive next) hdeleted]
      exact congrArg (Station.mk s.memory · s.console s.usage)
        (s.disk.setDrive_setDrive index next left)
    case h_2 next e hrefused => cases hdeleted

theorem disk_erase (hpattern : IsPattern pattern)
    (hdrive : s.disk.drive? s.disk.current = some (.memory files)) (hnormal : files.Normal) :
    (erase pattern s).disk =
      s.disk.setDrive s.disk.current (.memory (files.eraseAll (matching files pattern))) := by
  have hsome : pattern.isEmpty = false := List.isEmpty_eq_false_iff.mpr hpattern.ne_nil
  simp only [erase, hsome, Bool.false_eq_true, if_false,
    fileArgument?_of_unbroken hpattern.unbroken hpattern.colonless,
    filesMatching_upper hpattern hdrive]
  split
  case h_1 hnone =>
    rw [hnone, Station.disk_printLine]
    exact (DiskSystem.setDrive_self hdrive).symm
  case h_2 hfound =>
    have hdeleted : DiskSystem.deleteAll (.memory files) (matching files pattern) =
        (.memory (files.eraseAll (matching files pattern)), none) :=
      DiskSystem.deleteAll_matching hnormal (String.ofList pattern)
    rw [eraseAll_of_deleteAll hdrive hdeleted]
    rfl

/-- The command line and the system calls agree on patterns. A listing shows the entries that a
search for the pattern in a control block reports, in their order; and erasing by command and
deleting by call leave the same drive, on which the files that match the pattern are gone and all
others are as before. -/
theorem commands_agree_with_calls
    (hdrive : s.disk.drive? s.disk.current = some (.memory files)) (hnormal : files.Normal)
    (hascii : ∀ name ∈ files.keys, Ascii name.toList) (hpattern : IsPattern pattern)
    (drive : UInt8) (hbyte : drive = 0 ∨ drive.toNat = s.disk.current + 1) (fcb : UInt16) :
    let block := s.onMemory fun m => FileControlBlock.write m fcb drive (String.ofList pattern)
    let entries := (matching files pattern).map (SystemCall.entryOf s.disk.user)
    SystemCall.Enumerates fcb (SystemCall.perform 17 fcb block) entries ∧
      (∀ letter, driveLetter? s.disk.current = some letter →
        execute ("DIR".toList ++ ' ' :: pattern) s =
          (s.onConsole fun c => c.putBytes (listing letter entries), .done)) ∧
      ∃ left : Files,
        (execute ("ERA".toList ++ ' ' :: pattern) s).1.disk =
          s.disk.setDrive s.disk.current (.memory left) ∧
        (SystemCall.perform 19 fcb block).1.disk =
          s.disk.setDrive s.disk.current (.memory left) ∧
        ∀ name, left.get? name =
          if FileName.isMatch name (String.ofList pattern) then none else files.get? name := by
  intro block entries
  have hdisk : block.disk = s.disk := s.disk_onMemory _
  have hmemory : block.memory = FileControlBlock.write s.memory fcb drive (String.ofList pattern) :=
    s.memory_onMemory _
  -- no call looks at more of the block than its memory, which is not to be computed
  clear_value block
  have hselected : block.disk.selected? block.memory fcb =
      some (s.disk.current, .memory files) := by
    rw [hdisk, hmemory]
    exact DiskSystem.selected?_write hdrive hbyte _
  have hmatching : files.keys.filter (fun name =>
      FileName.isMatch name (FileControlBlock.name block.memory fcb)) = matching files pattern := by
    rw [hmemory, FileControlBlock.name_write]
    simp only [hpattern.isMatch_ofPadded]
    rfl
  refine ⟨?search, ?listing, files.eraseAll (matching files pattern), ?erase, ?delete, ?left⟩
  case search =>
    have hsearch := DiskSystem.searchFirst_eq hselected
    have hentries : entries = (files.keys.filter fun name =>
        FileName.isMatch name (FileControlBlock.name block.memory fcb)).map
          (SystemCall.entryOf block.disk.user) := by
      rw [hmatching, hdisk]
    rw [SystemCall.perform_search, hentries]
    exact SystemCall.enumerates_of_searchNext fcb hsearch
  case listing =>
    intro letter hletter
    have hword : Command.ofWord (upper "DIR".toList) = .directory := by decide
    rw [execute_words (by decide) (by decide) hpattern.unbroken hpattern.ne_nil, hword, perform]
    exact listDirectory_eq hpattern hdrive hascii hletter
  case erase =>
    have hword : Command.ofWord (upper "ERA".toList) = .erase := by decide
    rw [execute_words (by decide) (by decide) hpattern.unbroken hpattern.ne_nil, hword, perform]
    exact disk_erase hpattern hdrive hnormal
  case delete =>
    have hdeleted := DiskSystem.disk_deleteFiles hselected hnormal
    have hperform : SystemCall.perform 19 fcb block =
        block.onFiles fun d m => d.deleteFiles m fcb := rfl
    rw [hmatching, hdisk] at hdeleted
    rw [hperform, Station.onFiles_parts, hdisk]
    exact hdeleted
  case left => exact fun name => Files.get?_eraseAll_filter files _ name

/-- Two texts, one of them with a name that does not fit its fields, and a program. -/
def mixedFiles : Files :=
  ((SortedMap.empty.insert "A.TXT" #[]).insert "LONGERNAME.TXT" #[1]).insert "B.COM" #[0xC9]

def mixedStation : Station := .ofDrives [.memory mixedFiles]

/-- The names are cut in the listing, and only the program is left. -/
theorem commands_agree_with_calls_mixed :
    let pattern := "*.t?t".toList
    mixedFiles.Normal ∧ IsPattern pattern ∧
      (execute ("DIR".toList ++ ' ' :: pattern) mixedStation).1.console.output.toList =
        Utf8.encode "A: A        TXT\r\nA: LONGERNA TXT\r\n".toList ∧
      ∃ left : Files,
        (execute ("ERA".toList ++ ' ' :: pattern) mixedStation).1.disk.drives = [.memory left] ∧
        left.get? "LONGERNAME.TXT" = none ∧ left.get? "B.COM" = some #[0xC9] := by
  intro pattern
  have hpattern : IsPattern pattern := ⟨by decide, by decide, by decide, by decide⟩
  have hnormal : mixedFiles.Normal := by decide +kernel
  have hascii : ∀ name ∈ mixedFiles.keys, Ascii name.toList := by decide +kernel
  have hdrive : mixedStation.disk.drive? mixedStation.disk.current = some (.memory mixedFiles) :=
    rfl
  obtain ⟨-, hlisting, left, herased, -, hleft⟩ :=
    commands_agree_with_calls hdrive hnormal hascii hpattern 1 (by decide) defaultBlock
  refine ⟨hnormal, hpattern, ?_, left, by rw [herased]; rfl, ?_, ?_⟩
  · rw [hlisting 'A' (by decide)]
    decide +kernel
  · rw [hleft]
    decide +kernel
  · rw [hleft]
    decide +kernel

end CommandLine

end Cpm80
