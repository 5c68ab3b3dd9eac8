import Cpm80.Proofs.FileBlocks
import Cpm80.Proofs.PaddedNames
import Cpm80.Proofs.SequentialAccess
import Cpm80.Proofs.ShortNames

/-!
# Names that control blocks carry

A short name is a base and an extension that fit the two fields of a control block, so the block
shows the name again. One thing about a name is not in the fields: a dot in front of no extension.
A short name may end in such a dot, and the block then shows the name without it, which is another
name on the drive.
-/
namespace Cpm80

namespace FileName

open Text Utf8

variable {s base extension : List Char} {name normal : String}

/-- The name without a dot at its end. -/
def withoutFinalDot (s : List Char) : List Char :=
  if s.getLast? = some '.' then s.dropLast else s

/-- What a control block shows of a short name. -/
def carried (name : String) : String :=
  String.ofList (withoutFinalDot name.toList)

theorem carried_eq_iff : carried name = name ↔ name.toList.getLast? ≠ some '.' := by
  rw [carried, ← String.toList_inj, String.toList_ofList, withoutFinalDot]
  split
  case isFalse hlast => simp [hlast]
  case isTrue hlast =>
    have hne : name.toList ≠ [] := by
      intro hnil
      rw [hnil] at hlast
      cases hlast
    have hlength := List.length_pos_iff.mpr hne
    refine iff_of_false (fun heq => ?_) (fun h => h hlast)
    have hshorter := congrArg List.length heq
    rw [List.length_dropLast] at hshorter
    omega

/-! ## The fields of a short name -/

theorem shown_of_length_le {width : Nat} (hstar : '*' ∉ s) (hlength : s.length ≤ width) :
    shown width s = s := by
  induction width generalizing s with
  | zero =>
    rw [List.eq_nil_of_length_eq_zero (Nat.le_zero.mp hlength)]
    rfl
  | succ width ih =>
    cases s with
    | nil => rfl
    | cons c rest =>
      obtain ⟨hc, hrest⟩ := not_or.mp (List.mem_cons.not.mp hstar)
      rw [shown, if_neg (Ne.symm hc), ih hrest (Nat.le_of_succ_le_succ hlength)]

/-- The base and the extension of a short name in normal form. -/
structure HasFields (s base extension : List Char) : Prop where
  isField_base : IsField base
  isField_extension : IsField extension
  shown_base : shown 8 base = base
  shown_extension : shown 3 extension = extension
  joined_eq : joined base extension = withoutFinalDot s
  padded_eq : padded (String.ofList s) = fillField 8 (encode base) ++ fillField 3 (encode extension)

theorem isField_of_plain (hplain : ∀ c ∈ s, isPlain c = true) (hdot : '.' ∉ s)
    (hupper : upper s = s) : IsField s ∧ '*' ∉ s := by
  constructor
  · intro c hc
    have hc' := hplain c hc
    simp only [isPlain, Bool.and_eq_true, decide_eq_true_eq] at hc'
    refine ⟨hc'.1.1.1, hc'.1.1.2, fun heq => hdot (heq ▸ hc), ?_⟩
    have hsame : List.map Char.toUpper s = List.map id s := hupper.trans (List.map_id s).symm
    exact List.map_inj_left.mp hsame c hc
  · intro hstar
    have := hplain '*' hstar
    revert this
    decide

theorem hasFields_base (hfield : IsField base) (hstar : '*' ∉ base) (hlength : base.length ≤ 8) :
    HasFields base base [] where
  isField_base := hfield
  isField_extension := by simp [IsField]
  shown_base := shown_of_length_le hstar hlength
  shown_extension := rfl
  joined_eq := by
    have hlast : base.getLast? ≠ some '.' := fun h =>
      hfield.undotted (List.mem_of_getLast? h)
    rw [withoutFinalDot, if_neg hlast]
    rfl
  padded_eq := by
    have hempty : IsField [] := List.forall_mem_nil _
    have hpadded := padded_joined hfield hempty
    rwa [joined, List.isEmpty_nil, if_pos rfl] at hpadded

theorem hasFields_dotted (hbase : IsField base) (hextension : IsField extension)
    (hbaseStar : '*' ∉ base) (hextensionStar : '*' ∉ extension) (hlength : base.length ≤ 8)
    (hlengthExtension : extension.length ≤ 3) :
    HasFields (base ++ '.' :: extension) base extension where
  isField_base := hbase
  isField_extension := hextension
  shown_base := shown_of_length_le hbaseStar hlength
  shown_extension := shown_of_length_le hextensionStar hlengthExtension
  joined_eq := by
    rw [withoutFinalDot, joined]
    cases extension with
    | nil => simp
    | cons c rest =>
      have hlast : (base ++ '.' :: c :: rest).getLast? ≠ some '.' := by
        rw [List.getLast?_append_cons, List.getLast?_cons_cons]
        exact fun h => hextension.undotted (List.mem_of_getLast? h)
      rw [if_neg hlast]
      rfl
  padded_eq := by
    have hunbroken : Unbroken (base ++ '.' :: extension) :=
      hbase.unbroken.append (List.forall_mem_cons.mpr ⟨rfl, hextension.unbroken⟩)
    have hsplit : splitAtLastDot (upper (base ++ '.' :: extension)) = (base, extension) := by
      have hdotted : upper ('.' :: extension) = '.' :: upper extension := rfl
      rw [upper_append, hdotted, hbase.upper, hextension.upper,
        splitAtLastDot_append hextension.undotted]
    exact padded_of_split hunbroken hsplit

/-- A short name has its first dot, if it has any, between its base and its extension. -/
theorem exists_hasFields (hshort : isShort (String.ofList s) = true) (hupper : upper s = s) :
    ∃ base extension, HasFields s base extension := by
  by_cases hdot : '.' ∈ s
  case neg =>
    have hall : ∀ c ∈ s, decide (c ≠ '.') = true := by
      intro c hc
      rw [decide_eq_true_eq]
      rintro rfl
      exact hdot hc
    have hlength : s.length ≤ 8 := by
      simp only [isShort, String.toList_ofList, Bool.and_eq_true, decide_eq_true_eq] at hshort
      rw [List.takeWhile_eq_self_iff.mpr hall] at hshort
      exact hshort.1.1.1.2
    have hplain := isPlain_of_isShort hshort
    rw [String.toList_ofList] at hplain
    obtain ⟨hfield, hstar⟩ := isField_of_plain hplain hdot hupper
    exact ⟨s, [], hasFields_base hfield hstar hlength⟩
  case pos =>
    obtain ⟨base, extension, rfl, hbaseDot⟩ := List.eq_append_cons_of_mem hdot
    obtain ⟨-, hlength, hlengthExtension, hextensionDot, hbasePlain, hextensionPlain⟩ :=
      (isShort_append_dot hbaseDot).mp hshort
    rw [upper_append] at hupper
    obtain ⟨hbaseUpper, htail⟩ := List.append_inj hupper (length_upper base)
    obtain ⟨hbase, hbaseStar⟩ := isField_of_plain hbasePlain hbaseDot hbaseUpper
    obtain ⟨hextension, hextensionStar⟩ :=
      isField_of_plain hextensionPlain hextensionDot (List.cons.inj htail).2
    exact ⟨base, extension, hasFields_dotted hbase hextension hbaseStar hextensionStar hlength
      hlengthExtension⟩

theorem HasFields.ofPadded_padded (h : HasFields s base extension) :
    ofPadded (padded (String.ofList s)) = String.ofList (withoutFinalDot s) := by
  rw [h.padded_eq, ofPadded_fields h.isField_base h.isField_extension, h.shown_base,
    h.shown_extension, h.joined_eq]

theorem HasFields.padded_withoutFinalDot (h : HasFields s base extension) :
    padded (String.ofList (withoutFinalDot s)) = padded (String.ofList s) := by
  rw [← h.joined_eq, padded_joined h.isField_base h.isField_extension, h.padded_eq]

/-! ## Names and their normal forms -/

theorem padded_normal (h : normalize? name = some normal) : padded normal = padded name := by
  rw [eq_of_normalize? h, padded, padded, String.toList_ofList,
    trim_of_tight (tight_trim name.toList).upper, upper_upper]

theorem exists_hasFields_normal (h : normalize? name = some normal)
    (hshort : isShort normal = true) :
    ∃ base extension, HasFields normal.toList base extension := by
  have hupper : upper normal.toList = normal.toList := by
    rw [eq_of_normalize? h, String.toList_ofList, upper_upper]
  rw [← String.ofList_toList (s := normal)] at hshort
  exact exists_hasFields hshort hupper

/-- What the padded form of a short name shows. -/
theorem ofPadded_padded (h : normalize? name = some normal) (hshort : isShort normal = true) :
    ofPadded (padded name) = carried normal := by
  obtain ⟨base, extension, hfields⟩ := exists_hasFields_normal h hshort
  rw [← padded_normal h, carried, ← hfields.ofPadded_padded, String.ofList_toList]

theorem padded_carried (h : normalize? name = some normal) (hshort : isShort normal = true) :
    padded (carried normal) = padded name := by
  obtain ⟨base, extension, hfields⟩ := exists_hasFields_normal h hshort
  rw [carried, hfields.padded_withoutFinalDot, String.ofList_toList, padded_normal h]

/-- Short names with one padded form differ at most by a dot at the end. -/
theorem padded_eq_padded_iff (h : normalize? name = some normal) (hshort : isShort normal = true)
    {other otherNormal : String} (hother : normalize? other = some otherNormal)
    (hotherShort : isShort otherNormal = true) :
    padded name = padded other ↔ carried normal = carried otherNormal := by
  constructor
  · intro heq
    rw [← ofPadded_padded h hshort, heq, ofPadded_padded hother hotherShort]
  · intro heq
    rw [← padded_carried h hshort, heq, padded_carried hother hotherShort]

end FileName

namespace DiskSystem

open FileName

variable {d : DiskSystem} {fcb : UInt16} {index : Nat} {drive : Drive}

/-- The drive byte of a block selects a drive: the current one, or one by its number. -/
def Selects (d : DiskSystem) (byte : UInt8) (index : Nat) : Prop :=
  byte = 0 ∧ index = d.current ∨ byte.toNat = index + 1

theorem selected?_of_selects {byte : UInt8} (hselects : d.Selects byte index)
    (hdrive : d.drive? index = some drive) (m : Memory) (name : String) :
    d.selected? (FileControlBlock.write m fcb byte name) fcb = some (index, drive) := by
  have hindex : (if byte.toNat = 0 then d.current else byte.toNat - 1) = index := by
    rcases hselects with ⟨rfl, rfl⟩ | hnumber
    · rfl
    · rw [hnumber, if_neg (by omega), Nat.add_sub_cancel]
  rw [selected?, FileControlBlock.driveByte_write, hindex, hdrive, Option.map_some]

/-- What opening a block answers that has been made to name a file. -/
theorem openFile_write {byte : UInt8} (hselects : d.Selects byte index)
    (hdrive : d.drive? index = some drive) (m : Memory) (name : String) :
    d.openFile (FileControlBlock.write m fcb byte name) fcb =
      match drive.get? (ofPadded (padded name)) with
      | some content =>
        ⟨d, FileControlBlock.setPosition (FileControlBlock.write m fcb byte name) fcb 0
          (FileRecord.count content.size), Answer.success⟩
      | none => ⟨d, FileControlBlock.write m fcb byte name, Answer.failure⟩ := by
  simp only [openFile, selected?_of_selects hselects hdrive m name, FileControlBlock.name_write]
  cases drive.get? (ofPadded (padded name)) <;> rfl

/-- A short name comes back from its padded form in normal form, less a dot at its end; two short
names share a padded form only if they are the same but for such a dot; and opening a control block
that has been made to name a file opens the file of the name without that dot, if there is one. -/
theorem short_names_carried {name normal : String} (hnormal : normalize? name = some normal)
    (hshort : isShort normal = true) :
    ofPadded (padded name) = carried normal ∧
      (carried normal = normal ↔ normal.toList.getLast? ≠ some '.') ∧
      (∀ other otherNormal, normalize? other = some otherNormal → isShort otherNormal = true →
        (padded name = padded other ↔ carried normal = carried otherNormal)) ∧
      ∀ (d : DiskSystem) (m : Memory) (fcb : UInt16) (byte : UInt8) (index : Nat) (drive : Drive),
        d.Selects byte index → d.drive? index = some drive →
          d.openFile (FileControlBlock.write m fcb byte name) fcb =
            match drive.get? (carried normal) with
            | some content =>
              ⟨d, FileControlBlock.setPosition (FileControlBlock.write m fcb byte name) fcb 0
                (FileRecord.count content.size), Answer.success⟩
            | none => ⟨d, FileControlBlock.write m fcb byte name, Answer.failure⟩ := by
  refine ⟨ofPadded_padded hnormal hshort, carried_eq_iff, ?_, ?_⟩
  · intro other otherNormal hother hotherShort
    exact padded_eq_padded_iff hnormal hshort hother hotherShort
  · intro d m fcb byte index drive hselects hdrive
    rw [openFile_write hselects hdrive, ofPadded_padded hnormal hshort]

/-- A drive with a file whose name fills both fields. -/
def fullDrive : Drive :=
  .memory (.ofList [("ABCDEFGH.TXT", #[0x31])])

/-- A name in lower case that fills both fields, beside one that fills the first alone. -/
theorem short_names_carried_full :
    normalize? " abcdefgh.txt" = some "ABCDEFGH.TXT" ∧ isShort "ABCDEFGH.TXT" = true ∧
      ofPadded (padded " abcdefgh.txt") = "ABCDEFGH.TXT" ∧
      padded " abcdefgh.txt" ≠ padded "abcdefgh" ∧
      (ofDrives [fullDrive]).openFile
          (FileControlBlock.write .blank 0x005C 0 " abcdefgh.txt") 0x005C =
        ⟨ofDrives [fullDrive], FileControlBlock.setPosition
          (FileControlBlock.write .blank 0x005C 0 " abcdefgh.txt") 0x005C 0 1, Answer.success⟩ := by
  have hnormal : normalize? " abcdefgh.txt" = some "ABCDEFGH.TXT" := by decide
  have hshort : isShort "ABCDEFGH.TXT" = true := by decide
  have hcarried : carried "ABCDEFGH.TXT" = "ABCDEFGH.TXT" := by decide
  have hfile : fullDrive.get? "ABCDEFGH.TXT" = some #[0x31] := by decide
  obtain ⟨hshown, -, hothers, hopened⟩ := short_names_carried hnormal hshort
  refine ⟨hnormal, hshort, hshown.trans hcarried, ?_, ?_⟩
  · rw [Ne, hothers "abcdefgh" "ABCDEFGH" (by decide) (by decide)]
    decide
  · rw [hopened _ .blank 0x005C 0 0 fullDrive (.inl ⟨rfl, rfl⟩) rfl, hcarried, hfile]
    rfl

/-- Two files on a drive, of which one has a name that ends in a dot. -/
def dottedFiles : Files :=
  .ofList [("A", #[]), ("A.", #[0x31])]

/-- A name that ends in a dot fits a control block and does not come back from it: the block shows
another name, and opening it opens the empty file of that name. -/
theorem exists_name_not_carried :
    normalize? "a." = some "A." ∧ isShort "A." = true ∧ ofPadded (padded "a.") = "A" ∧
      padded "a." = padded "A" ∧ (Drive.memory dottedFiles).list = ["A", "A."] ∧
      ((ofDrives [.memory dottedFiles]).openFile
          (FileControlBlock.write .blank 0x005C 0 "A.") 0x005C).memory =
        FileControlBlock.setPosition (FileControlBlock.write .blank 0x005C 0 "A.") 0x005C 0 0 := by
  have hpadded : ofPadded (padded "A.") = "A" := by decide
  have hfile : (Drive.memory dottedFiles).get? "A" = some #[] := by decide
  refine ⟨by decide, by decide, by decide, by decide, by decide, ?_⟩
  have hdrive : (ofDrives [.memory dottedFiles]).drive? 0 = some (.memory dottedFiles) := rfl
  rw [openFile_write (.inl ⟨rfl, rfl⟩) hdrive, hpadded, hfile]
  rfl

end DiskSystem

end Cpm80
