import Cpm80.FileContent
import Cpm80.Proofs.DiskInvariants
import Cpm80.Proofs.RenderedLines
import Cpm80.Proofs.SequentialAccess
import Cpm80.Proofs.TextBytes

/-!
# The lines of text files

Lines are read from any bytes whatever, but what is read has no line feed, no end mark and no
carriage return at its end. Lines of that form come back as they are from the file that they are
written to, and so one pass through a file is enough to reach a form that further ones keep.
-/
namespace Cpm80

/-! ## Lines -/

namespace Text

variable {line text : List Char}

theorem mem_endedLine {c : Char} (h : c ∈ endedLine line) : c ∈ line := by
  unfold endedLine at h
  split at h
  case h_1 rest => exact List.mem_cons_of_mem _ (List.mem_reverse.mp h)
  case h_2 => exact List.mem_reverse.mp h

/-- The lines of a text have what its characters have other than the line feeds. -/
theorem forall_mem_linesFrom {P : Char → Prop} {done : List (List Char)} {current : List Char}
    (htext : ∀ c ∈ text, c ≠ '\n' → P c) (hcurrent : ∀ c ∈ current, P c)
    (hdone : ∀ line ∈ done, ∀ c ∈ line, P c) :
    ∀ line ∈ linesFrom done current text, ∀ c ∈ line, P c := by
  induction text generalizing done current with
  | nil =>
    intro line hline
    rw [linesFrom, List.mem_reverse] at hline
    split at hline
    case isTrue => exact hdone line hline
    case isFalse =>
      rcases List.mem_cons.mp hline with rfl | hline
      · exact fun c hc => hcurrent c (List.mem_reverse.mp hc)
      · exact hdone line hline
  | cons d text ih =>
    obtain ⟨hd, htext⟩ := List.forall_mem_cons.mp htext
    rw [linesFrom]
    split
    case isTrue =>
      refine ih htext (List.forall_mem_nil P) (List.forall_mem_cons.mpr ⟨?_, hdone⟩)
      exact fun c hc => hcurrent c (mem_endedLine hc)
    case isFalse hfeed => exact ih htext (List.forall_mem_cons.mpr ⟨hd hfeed, hcurrent⟩) hdone

theorem forall_mem_lines {P : Char → Prop} (h : ∀ c ∈ text, c ≠ '\n' → P c) :
    ∀ line ∈ lines text, ∀ c ∈ line, P c :=
  forall_mem_linesFrom h (List.forall_mem_nil P) (List.forall_mem_nil _)

end Text

namespace TextFile

open Text Utf8 FileRecord

variable {line : List Char} {content : Array UInt8}

/-- The end mark as a character. -/
def endChar : Char := '\x1a'

theorem ofNat_endMark : Char.ofNat endMark.toNat = endChar := by decide

theorem ofNat_endChar : UInt8.ofNat endChar.toNat = endMark := by decide

/-- A line that a text file can hold as it is. -/
structure IsLine (line : List Char) : Prop where
  feed : '\n' ∉ line
  mark : endChar ∉ line
  ending : line.getLast? ≠ some '\r'

theorem withoutReturns_of_getLast? (h : line.getLast? ≠ some '\r') : withoutReturns line = line := by
  rw [withoutReturns]
  have hreversed : line.reverse.dropWhile (· = '\r') = line.reverse := by
    cases hline : line.reverse with
    | nil => rfl
    | cons c rest =>
      have hc : c ≠ '\r' := by
        rintro rfl
        rw [← List.head?_reverse, hline] at h
        exact h rfl
      rw [List.dropWhile_cons_of_neg (by simp [hc])]
  rw [hreversed, List.reverse_reverse]

theorem getLast?_withoutReturns (line : List Char) :
    (withoutReturns line).getLast? ≠ some '\r' := by
  rw [withoutReturns, List.getLast?_reverse]
  intro hlast
  have hhead := List.head?_dropWhile_not (fun c => decide (c = '\r')) line.reverse
  rw [hlast] at hhead
  simp at hhead

theorem mem_of_mem_withoutReturns {c : Char} (h : c ∈ withoutReturns line) : c ∈ line := by
  rw [withoutReturns, List.mem_reverse] at h
  exact List.mem_reverse.mp ((List.dropWhile_sublist _).subset h)

theorem endMark_notMem_body : endMark ∉ body content := by
  intro hmem
  have hbefore := List.mem_takeWhile_imp hmem
  simp at hbefore

/-- Whatever the bytes of a file are, its lines are lines that a file can hold as they are. -/
theorem isLine_of_mem_lines (h : line ∈ lines content) : IsLine line := by
  obtain ⟨raw, hraw, rfl⟩ := List.mem_map.mp h
  have hchars : ∀ c ∈ raw, c ≠ '\n' ∧ c ∈ decodeLenient (body content) :=
    forall_mem_lines (fun c hc hfeed => ⟨hfeed, hc⟩) raw hraw
  refine ⟨?_, ?_, getLast?_withoutReturns raw⟩
  · intro hfeed
    exact (hchars _ (mem_of_mem_withoutReturns hfeed)).1 rfl
  · intro hmark
    have hread := (hchars _ (mem_of_mem_withoutReturns hmark)).2
    have hbyte := mem_decodeLenient (by decide) (by decide) hread
    rw [ofNat_endChar] at hbyte
    exact endMark_notMem_body hbyte

/-- Lines as they are written: each with its ending. -/
def joined (texts : List (List Char)) : List Char :=
  texts.flatMap fun line => line ++ ['\r', '\n']

theorem body_ofLines {texts : List (List Char)} (h : ∀ line ∈ texts, endChar ∉ line) :
    body (ofLines texts) = encode (joined texts) := by
  have hwritten : (texts.flatMap fun line => encode (line ++ ['\r', '\n'])) =
      encode (joined texts) := by
    rw [encode, joined, List.flatMap_assoc]
    rfl
  have hclean : endMark ∉ encode (joined texts) := by
    intro hmem
    have hread := mem_encode (by decide) hmem
    rw [ofNat_endMark] at hread
    obtain ⟨line, hline, hmark⟩ := List.mem_flatMap.mp hread
    rcases List.mem_append.mp hmark with hmark | hmark
    · exact h line hline hmark
    · exact absurd hmark (by decide)
  rw [body, ofLines, hwritten, List.takeWhile_append_of_pos]
  · simp
  · intro b hb
    rw [decide_eq_true_eq]
    rintro rfl
    exact hclean hb

/-- Lines that a file can hold come back from the file that they are written to. -/
theorem lines_ofLines {texts : List (List Char)} (h : ∀ line ∈ texts, IsLine line) :
    lines (ofLines texts) = texts := by
  have hended : joined texts = texts.flatMap fun line => (line ++ ['\r']) ++ ['\n'] := by
    simp [joined]
  have hfeeds : ∀ line ∈ texts, '\n' ∉ line ++ ['\r'] := by
    intro line hline hmem
    rcases List.mem_append.mp hmem with hmem | hmem
    · exact (h line hline).feed hmem
    · exact absurd hmem (by decide)
  have hsame : ∀ line ∈ texts, withoutReturns (endedLine (line ++ ['\r']).reverse) = line := by
    intro line hline
    rw [List.reverse_append, List.reverse_singleton, List.singleton_append, endedLine,
      List.reverse_reverse, withoutReturns_of_getLast? (h line hline).ending]
  rw [lines, body_ofLines fun line hline => (h line hline).mark, decodeLenient_encode, hended,
    lines_flatMap_feeds hfeeds, List.map_map]
  exact (List.map_congr_left hsame).trans (List.map_id' texts)

end TextFile

/-! ## Files that have been saved -/

variable {content : Array UInt8} {name : String}

theorem Files.get?_save {f : Files} (h : (f.save name content).2 = none) :
    (FileName.normalize? name).bind (f.save name content).1.get? = some content := by
  rw [save] at h ⊢
  rw [FileName.normalize] at h ⊢
  cases hname : FileName.normalize? name with
  | none => simp [hname] at h
  | some normal => simp [SortedMap.get?_insert]

theorem DirectoryDrive.get?_save {d : DirectoryDrive} (h : (d.save name content).2 = none) :
    (FileName.normalize? name).bind (d.save name content).1.files.get? = some content := by
  rw [save, change, FileName.normalize] at h ⊢
  cases hname : FileName.normalize? name with
  | none => simp [hname] at h
  | some normal =>
    simp only [hname, attempt] at h ⊢
    cases hwrite : d.host.write (d.hostName normal) content with
    | error e => simp [hwrite] at h
    | ok host => simp [SortedMap.get?_insert]

/-- A file that has been saved is on the drive. -/
theorem Drive.get?_save {d : Drive} (h : (d.save name content).2 = none) :
    (d.save name content).1.get? name = some content := by
  cases d with
  | memory files =>
    have hfiles : ((memory files).save name content).1.files = (files.save name content).1 := rfl
    have herror : (files.save name content).2 = none := h
    rw [get?, hfiles, Files.get?_save herror]
  | directory d =>
    have hfiles : ((directory d).save name content).1.files = (d.save name content).1.files := rfl
    have herror : (d.save name content).2 = none := h
    rw [get?, hfiles, DirectoryDrive.get?_save herror]

theorem DiskSystem.file?_saveFile {d : DiskSystem} {index : Nat}
    (h : (d.saveFile index name content).2 = some none) :
    (d.saveFile index name content).1.file? index name = some content := by
  rw [saveFile] at h ⊢
  cases hdrive : d.drive? index with
  | none => simp [hdrive] at h
  | some drive =>
    simp only [hdrive, Option.some.injEq] at h ⊢
    rw [file?, drive?_setDrive hdrive, Option.bind_some, Drive.get?_save h]

end Cpm80
