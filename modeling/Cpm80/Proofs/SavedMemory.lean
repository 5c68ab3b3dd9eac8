import Cpm80.Proofs.ProgramLoading
import Cpm80.Proofs.SavedPrograms
import Cpm80.Proofs.TypedNames

/-!
# Memory that is saved as a program

The command that writes pages of memory to a file begins where programs begin, so what it writes
can be started as a program. With 255 pages, the most that it takes, the block ends with the last
cell of memory: neither the command nor the start of the program finds it too long. Starting the
program writes its arguments below the pages, so all of them are back as they were.
-/
namespace Cpm80

namespace CommandLine

open Text FileName

variable {base extension start : List Char} {s : Station} {index pages : Nat} {files : Files}

/-- The most pages that can be saved end with the last cell of memory. -/
theorem fits_pages (hpages : pages ≤ 255) : Memory.Fits programStart (pages * 256) := by
  rw [fits_programStart_iff]
  omega

theorem unbroken_repr (pages : Nat) : Unbroken pages.repr.toList :=
  fun _ hc => Numeral.isBlank_of_isDigit (Numeral.isDigit_of_mem_repr hc)

section

variable (hname : IsTyped base extension) (hextension : upper extension = ['C', 'O', 'M'])
  (hstart : Designates s.disk start index)
include hname hextension hstart

/-- Saving pages under the typed name of a program writes one file and does nothing else. -/
theorem saveMemory_eq (hpages : pages ≤ 255)
    (hdrive : s.disk.drive? index = some (.memory files)) :
    saveMemory (pages.repr.toList ++ ' ' :: (start ++ joined base extension)) s =
      s.onDisk fun d => d.setDrive index (.memory (files.insert
        (String.ofList (upper (joined base extension)))
        (s.memory.slice programStart (pages * 256)).toArray)) := by
  have hwords := words_of_two (unbroken_repr pages) (Numeral.repr_ne_nil pages)
    (hstart.unbroken hname.unbroken) (append_typed_ne_nil hname start)
  have hargument := hstart.fileArgument?_append hname.unbroken hname.notMem_colon
  have hnew := isNewName_of_com hname hextension
  have hdump : s.memory.dump programStart (pages * 256) =
      .ok (s.memory.slice programStart (pages * 256)) :=
    if_pos (fits_pages hpages)
  have hnormal := isNormal_of_normalize? hname.normalize?_eq
  rw [IsNormal] at hnormal
  obtain ⟨m, d, c, u⟩ := s
  rw [saveMemory, hwords]
  simp only [Numeral.bounded?_repr hpages, hargument, hnew, hdump, Bool.not_true,
    Bool.false_eq_true, if_false, DiskSystem.saveFile, hdrive, Drive.memory_save, Files.save,
    FileName.normalize, hnormal]
  rfl

theorem execute_save (hpages : pages ≤ 255)
    (hdrive : s.disk.drive? index = some (.memory files)) :
    execute ("SAVE".toList ++ ' ' :: (pages.repr.toList ++ ' ' :: (start ++ joined base extension)))
        s =
      (s.onDisk fun d => d.setDrive index (.memory (files.insert
        (String.ofList (upper (joined base extension)))
        (s.memory.slice programStart (pages * 256)).toArray)), .done) := by
  have hargument := tight_words (unbroken_repr pages) (Numeral.repr_ne_nil pages)
    (hstart.unbroken hname.unbroken).tight (append_typed_ne_nil hname start)
  have hword : Command.ofWord (upper "SAVE".toList) = .save := by decide
  rw [execute_of_tight (by decide) (by decide) hargument (by simp), hword, perform,
    saveMemory_eq hname hextension hstart hpages hdrive]

/-- The typed name of a program that is there and fits is all it takes to start it. -/
theorem execute_of_com {image : Array UInt8}
    (hfile : s.disk.file? index (String.ofList (upper (joined base extension))) = some image)
    (hfits : Memory.Fits programStart image.size) :
    execute (start ++ joined base extension) s =
      (s.onMemory fun m => m.placeAll (programBlocks [] image), .run programStart) := by
  have hdot : '.' ∈ upper (start ++ joined base extension) := by
    rw [upper_append, upper_joined_of_com hextension]
    simp [programSuffix]
  have hfound := (findProgram?_of_com hname hextension hstart).trans hfile
  rw [execute_word (hstart.unbroken hname.unbroken) (append_typed_ne_nil hname start),
    ofWord_of_dot hdot, perform, loadProgram_of_fits hfound hfits]
  simp only [prepareTail_place]

end

/-- Saving memory and starting what was saved are inverse to each other. Whatever memory holds, any
number of pages up to 255 is written to the file of the name, without a word and without another
change; and whatever memory holds when that name is typed with the same prefix, as long as the
drives are the same and the prefix tells the same one, the program is started and its pages are what
they were. -/
theorem saved_memory_restored (hpages : pages ≤ 255) (hstart : Designates s.disk start index)
    (hname : IsTyped base extension) (hextension : upper extension = ['C', 'O', 'M'])
    (hdrive : s.disk.drive? index = some (.memory files)) :
    let typed := start ++ joined base extension
    let image := s.memory.slice 0x0100 (pages * 256)
    let saved := execute ("SAVE".toList ++ ' ' :: (pages.repr.toList ++ ' ' :: typed)) s
    saved.2 = .done ∧ saved.1.console = s.console ∧ saved.1.memory = s.memory ∧
      saved.1.disk.file? = Lookup.written s.disk.file? index
        (String.ofList (upper (joined base extension))) image.toArray ∧
      ∀ t : Station, t.disk.drives = saved.1.disk.drives → Designates t.disk start index →
        (execute typed t).2 = .run 0x0100 ∧
          (execute typed t).1.memory.slice 0x0100 (pages * 256) = image := by
  intro typed image saved
  have hsaved : saved = (s.onDisk fun d => d.setDrive index (.memory (files.insert
      (String.ofList (upper (joined base extension))) image.toArray)), .done) :=
    execute_save hname hextension hstart hpages hdrive
  have hnormal := isNormal_of_normalize? hname.normalize?_eq
  have hfiles : saved.1.disk.file? = Lookup.written s.disk.file? index
      (String.ofList (upper (joined base extension))) image.toArray := by
    rw [hsaved]
    exact DiskSystem.file?_setDrive_insert hdrive _ _
  refine ⟨by rw [hsaved], by rw [hsaved]; rfl, by rw [hsaved]; rfl, hfiles, ?_⟩
  intro t hdrives htold
  have hfile : t.disk.file? index (String.ofList (upper (joined base extension))) =
      some image.toArray := by
    have hsame : t.disk.file? index = saved.1.disk.file? index := by
      funext name
      rw [DiskSystem.file?, DiskSystem.drive?, hdrives]
      rfl
    rw [hsame, hfiles, Lookup.written, if_pos ⟨rfl, hnormal⟩]
  have hlength : image.length = pages * 256 := Memory.length_slice _ _ _
  have hsize : 0x0100 + image.toArray.size ≤ 65536 := by
    rw [List.size_toArray, hlength]
    omega
  have hstarted := execute_of_com hname hextension htold hfile
    ((fits_programStart_iff _).mpr hsize)
  have himage := (laidOut_programBlocks t.memory [] hsize).held ⟨0x0100, image⟩ List.mem_cons_self
  rw [hlength] at himage
  rw [hstarted]
  exact ⟨rfl, himage⟩

/-- A computer with two empty drives and a mark in the last cell of memory. -/
def markedStation : Station :=
  { Station.ofDrives [.memory .empty, .memory .empty] with memory := Memory.blank.write 0xFFFF 7 }

/-- All pages there are, saved on the drive that is not current and started in blank memory. -/
theorem saved_memory_restored_allPages :
    let saved := execute "SAVE 255 b:Top.com".toList markedStation
    let started := execute "b:Top.com".toList { saved.1 with memory := .blank }
    saved.2 = .done ∧ saved.1.console = markedStation.console ∧
      started.2 = .run 0x0100 ∧ started.1.memory.read 0xFFFF = 7 := by
  have hstart : Designates markedStation.disk "b:".toList 1 :=
    .letter (by decide) (by decide) (by decide)
  have hname : IsTyped "Top".toList "com".toList := by decide
  have hline : "SAVE 255 b:Top.com".toList = "SAVE".toList ++
      ' ' :: ((255).repr.toList ++ ' ' :: ("b:".toList ++ joined "Top".toList "com".toList)) := by
    decide
  have htyped : "b:Top.com".toList = "b:".toList ++ joined "Top".toList "com".toList := by decide
  have hthere : 1 < (execute "SAVE 255 b:Top.com".toList markedStation).1.disk.drives.length := by
    rw [hline, execute_save hname (by decide) hstart (Nat.le_refl 255) rfl]
    simp only [Station.disk_onDisk, DiskSystem.setDrive, List.length_set]
    decide
  obtain ⟨hdone, hconsole, -, -, hlater⟩ :=
    saved_memory_restored (s := markedStation) (Nat.le_refl 255) hstart hname (by decide) rfl
  rw [← hline, ← htyped] at hlater
  rw [← hline] at hdone hconsole
  obtain ⟨hrun, hpages⟩ := hlater
    { (execute "SAVE 255 b:Top.com".toList markedStation).1 with memory := .blank } rfl
    (.letter (by decide) (by decide) hthere)
  refine ⟨hdone, hconsole, hrun, ?_⟩
  have htop : (0x0100 : UInt16) + UInt16.ofNat 65279 = 0xFFFF := by decide
  have hcell := Memory.read_eq_of_slice_eq hpages (Nat.lt_succ_self 65279)
  have hmark : markedStation.memory.read 0xFFFF = 7 := by
    rw [markedStation, Memory.read_write_self]
  rw [htop, hmark] at hcell
  exact hcell

end CommandLine

end Cpm80
