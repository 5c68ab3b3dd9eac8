import Cpm80.LineEditor
import Cpm80.Proofs.ProgramFiles
import Cpm80.Proofs.TextFiles

/-!
# Buffers that are saved and opened again

The lines in the editor were read from a file or typed. Those that were read can be written back
as they are, and so can those that were typed without a line feed, an end mark or a carriage
return at the end. So the editor finds on the drive what it has saved there.
-/
namespace Cpm80.LineEditor

open TextFile

variable {drive : Nat} {fileName : String} {e : LineEditor} {input : List Char} {s t : Station}

/-- The states of an editor that was opened on a file, if what is typed into it are lines that a
file can hold. Commands are not restricted, and the station may change between two inputs. -/
inductive Reachable (drive : Nat) (fileName : String) : LineEditor → Prop
  | start (s : Station) : Reachable drive fileName (start drive fileName s).1
  | handle {e : LineEditor} (h : Reachable drive fileName e) (input : List Char) (s : Station)
    (hline : e.inserting = true → input ≠ [] → IsLine input) :
    Reachable drive fileName (e.handle input s).1

/-- What holds of an editor from the opening of its file on. -/
structure Holds (drive : Nat) (fileName : String) (e : LineEditor) : Prop where
  drive_eq : e.drive = drive
  fileName_eq : e.fileName = fileName
  isLine : ∀ line ∈ e.lines, IsLine line

theorem lines_start (drive : Nat) (fileName : String) (s : Station) :
    (start drive fileName s).1.lines =
      ((s.disk.file? drive fileName).map TextFile.lines).getD [] := by
  unfold start
  cases s.disk.file? drive fileName <;> rfl

theorem holds_start (drive : Nat) (fileName : String) (s : Station) :
    Holds drive fileName (start drive fileName s).1 := by
  refine ⟨rfl, rfl, ?_⟩
  rw [lines_start]
  cases s.disk.file? drive fileName with
  | none => exact List.forall_mem_nil _
  | some content => exact fun line hline => isLine_of_mem_lines hline

theorem Holds.insertLine (h : Holds drive fileName e) {line : List Char} (hline : IsLine line) :
    Holds drive fileName (e.insertLine line) := by
  refine ⟨h.drive_eq, h.fileName_eq, ?_⟩
  intro other hother
  rcases List.mem_append.mp hother with hbefore | hafter
  · exact h.isLine other (List.mem_of_mem_take hbefore)
  · rcases List.mem_cons.mp hafter with rfl | hafter
    · exact hline
    · exact h.isLine other (List.mem_of_mem_drop hafter)

theorem Holds.deleteLine (h : Holds drive fileName e) (n : Nat) :
    Holds drive fileName (e.deleteLine n) :=
  ⟨h.drive_eq, h.fileName_eq, fun line hline => h.isLine line (List.mem_of_mem_eraseIdx hline)⟩

theorem Holds.delete (h : Holds drive fileName e) (argument : List Char) (s : Station) :
    Holds drive fileName (e.delete argument s).1 := by
  unfold LineEditor.delete
  split
  case h_1 n hn =>
    split
    case isTrue => exact h.deleteLine n
    case isFalse => exact h
  case h_2 => exact h

theorem Holds.command (h : Holds drive fileName e) (input : List Char) (s : Station) :
    Holds drive fileName (e.command input s).1 := by
  unfold LineEditor.command
  split
  case h_1 => exact h
  case h_2 letter rest hinput =>
    dsimp only
    split
    case h_1 => exact ⟨h.drive_eq, h.fileName_eq, h.isLine⟩
    case h_2 => exact h.delete _ s
    case h_3 | h_4 | h_5 | h_6 | h_7 => exact h

/-- An input keeps the lines of the editor in order, if it may be inserted as one. -/
theorem Holds.handle (h : Holds drive fileName e) (s : Station)
    (hline : e.inserting = true → input ≠ [] → IsLine input) :
    Holds drive fileName (e.handle input s).1 := by
  unfold LineEditor.handle
  split
  case isTrue hinserting =>
    dsimp only
    split
    case isTrue => exact ⟨h.drive_eq, h.fileName_eq, h.isLine⟩
    case isFalse hsome =>
      exact h.insertLine (hline hinserting (mt List.isEmpty_iff.mpr hsome))
  case isFalse =>
    have hcommand := h.command input s
    generalize e.command input s = result at hcommand
    obtain ⟨f, t, status⟩ := result
    cases status with
    | quit => exact hcommand
    | editing => exact hcommand

theorem Reachable.holds (h : Reachable drive fileName e) : Holds drive fileName e := by
  induction h with
  | start s => exact holds_start drive fileName s
  | handle h input s hline ih => exact ih.handle s hline

/-! ## Saving -/

/-- The input is the command to save the file. -/
structure Saves (e : LineEditor) (input : List Char) : Prop where
  commanding : e.inserting = false
  letter : (Text.upper (Text.trim input)).head? = some 'S'

theorem disk_save (e : LineEditor) (s : Station) :
    (e.save s).disk =
      (s.disk.saveFile e.drive e.fileName (TextFile.ofLines e.lines)).1 := by
  unfold save
  dsimp only
  split <;> rfl

/-- Saving changes the drive alone. -/
theorem Saves.handle (h : Saves e input) (s : Station) :
    (e.handle input s).1 = e ∧
      (e.handle input s).2.1.disk =
        (s.disk.saveFile e.drive e.fileName (TextFile.ofLines e.lines)).1 := by
  obtain ⟨rest, hinput⟩ := List.head?_eq_some_iff.mp h.letter
  have hcommand : e.command input s = (e, e.save s, .editing) := by
    rw [command, hinput]
    rfl
  have hhandle : e.handle input s = (e, e.showPrompt (e.save s), .editing) := by
    rw [LineEditor.handle, h.commanding, if_neg Bool.false_ne_true, hcommand]
  rw [hhandle]
  exact ⟨rfl, disk_save e s⟩

/-- An editor that is opened on what another one has saved holds the lines that were saved, and
what it saves itself are the bytes that are there already. -/
theorem saved_lines_reopened (h : Reachable drive fileName e) (hsaves : Saves e input)
    (hsuccess : (s.disk.saveFile drive fileName (ofLines e.lines)).2 = some none)
    (hfile : t.disk.file? drive fileName = (e.handle input s).2.1.disk.file? drive fileName) :
    (start drive fileName t).1.lines = e.lines ∧
      ∃ bytes, t.disk.file? drive fileName = some bytes ∧
        ∀ again u, Saves (start drive fileName t).1 again →
          ((start drive fileName t).1.handle again u).2.1.disk =
            (u.disk.saveFile drive fileName bytes).1 := by
  obtain ⟨hdrive, hname, hlines⟩ := h.holds
  rw [(hsaves.handle s).2, hdrive, hname, DiskSystem.file?_saveFile hsuccess] at hfile
  have hreopened : (start drive fileName t).1.lines = e.lines := by
    rw [lines_start, hfile, Option.map_some, Option.getD_some, lines_ofLines hlines]
  refine ⟨hreopened, ofLines e.lines, hfile, fun again u hagain => ?_⟩
  rw [(hagain.handle u).2, hreopened]
  rfl

/-- A station with a file that is no text: a byte that begins no character, carriage returns, and
no line feed at its end. -/
def brokenStation : Station :=
  .ofDrives [.memory (.ofList [("N.TXT", #[0xFF, 0x0D, 0x0D, 0x0A, 0x0A, 0x41])])]

/-- The editor on that file after a line has been typed at its end. -/
def brokenEditor : LineEditor :=
  ((start 0 "N.TXT" brokenStation).1.handle ['I'] brokenStation).1.handle ['B', '\r', 'C']
    brokenStation |>.1.handle [] brokenStation |>.1

/-- A file that is no text: a byte that begins no character, two carriage returns, an empty line
and no line feed at its end. A line with a carriage return inside is typed behind it. -/
theorem saved_lines_reopened_broken :
    brokenEditor.lines = [['\uFFFD'], [], ['A'], ['B', '\r', 'C']] ∧
      (start 0 "N.TXT" (brokenEditor.handle ['s'] brokenStation).2.1).1.lines =
        [['\uFFFD'], [], ['A'], ['B', '\r', 'C']] := by
  have hreachable : Reachable 0 "N.TXT" brokenEditor := by
    refine .handle (.handle (.handle (.start brokenStation) ['I'] brokenStation ?_)
      ['B', '\r', 'C'] brokenStation ?_) [] brokenStation ?_
    · intro h
      cases h
    · exact fun _ _ => ⟨by decide, by decide, by decide⟩
    · exact fun _ hsome => absurd rfl hsome
  have hlines : brokenEditor.lines = [['\uFFFD'], [], ['A'], ['B', '\r', 'C']] := by
    decide +kernel
  have hsaves : Saves brokenEditor ['s'] := ⟨by rfl, by rfl⟩
  have hsuccess : (brokenStation.disk.saveFile 0 "N.TXT" (ofLines brokenEditor.lines)).2 =
      some none := by
    rw [hlines]
    decide
  exact ⟨hlines, (saved_lines_reopened hreachable hsaves hsuccess rfl).1.trans hlines⟩

end Cpm80.LineEditor
