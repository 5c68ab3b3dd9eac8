import Cpm80.CommandLine

/-!
# What commands leave alone

A command works on the disk system and the console, and of the counts it touches those of
assemblies. A view of the station into which none of these enters is therefore the same before and
after a command. The one exception is a program, which is written to memory.
-/
namespace Cpm80

namespace Station

/-- A view of the station that the work of commands does not enter. -/
structure Frame {α : Type} (view : Station → α) : Prop where
  onConsole : ∀ (s : Station) (f : Console → Console), view (s.onConsole f) = view s
  onDisk : ∀ (s : Station) (f : DiskSystem → DiskSystem), view (s.onDisk f) = view s
  addAssembly : ∀ (s : Station) (clean : Bool),
    view (s.onUsage fun u => u.addAssembly clean) = view s

/-- The memory is such a view. -/
theorem frame_memory : Frame memory where
  onConsole _ _ := rfl
  onDisk _ _ := rfl
  addAssembly _ _ := rfl

namespace Frame

variable {α : Type} {view : Station → α}

theorem printLine (h : Frame view) (s : Station) (text : String) :
    view (s.printLine text) = view s :=
  h.onConsole s _

theorem foldl {β : Type} {f : Station → β → Station}
    (hf : ∀ (s : Station) (x : β), view (f s x) = view s) (xs : List β) (s : Station) :
    view (xs.foldl f s) = view s := by
  induction xs generalizing s with
  | nil => rfl
  | cons x rest ih => rw [List.foldl_cons, ih, hf]

theorem printLines (h : Frame view) (s : Station) (lines : List String) :
    view (s.printLines lines) = view s :=
  foldl h.printLine lines s

end Frame

end Station

namespace CommandLine

open Station

variable {α : Type} {view : Station → α} (h : Frame view) (s : Station)
include h

theorem frame_listDirectory (argument : List Char) :
    view (listDirectory argument s).1 = view s := by
  unfold listDirectory
  split
  case h_1 => exact h.printLine s _
  case h_2 =>
    split
    case h_1 => exact h.printLine s _
    case h_2 =>
      split
      case h_1 => rfl
      case h_2 => exact Frame.foldl (fun s _ => h.printLine s _) _ s

theorem frame_typeFile (argument : List Char) : view (typeFile argument s) = view s := by
  unfold typeFile
  dsimp only
  repeat' split
  all_goals simp only [h.onConsole, h.printLine]

theorem frame_eraseAll (drive : Nat) (names : List String) :
    view (eraseAll drive s names) = view s := by
  induction names generalizing s with
  | nil => rfl
  | cons name rest ih =>
    unfold eraseAll
    repeat' split
    all_goals simp only [ih, h.onDisk, h.printLine]

theorem frame_erase (argument : List Char) : view (erase argument s) = view s := by
  unfold erase
  repeat' split
  all_goals simp only [frame_eraseAll h, h.printLine]

theorem frame_rename (argument : List Char) : view (rename argument s) = view s := by
  unfold rename
  dsimp only
  repeat' split
  all_goals simp only [h.onDisk, h.printLine]

theorem frame_reportSaved (result : Option (Option DriveError)) {success : Station → Station}
    (hsuccess : ∀ s, view (success s) = view s) : view (reportSaved result success s) = view s := by
  unfold reportSaved
  split
  case h_1 => exact hsuccess s
  case h_2 | h_3 => exact h.printLine s _

theorem frame_assembleFile (argument : List Char) :
    view (assembleFile argument s) = view s := by
  unfold assembleFile
  split
  case isTrue => exact h.printLine s _
  case isFalse =>
    split
    case h_1 => exact h.printLine s _
    case h_2 =>
      dsimp only
      split
      case h_1 => exact h.printLine s _
      case h_2 =>
        split
        case isTrue =>
          rw [h.printLine, Frame.foldl fun s _ => h.printLine s _, h.addAssembly]
        case isFalse =>
          split
          case isTrue => rw [h.printLine, h.addAssembly]
          case isFalse =>
            rw [frame_reportSaved h _ _ fun s => h.printLine s _, h.onDisk, h.addAssembly]

theorem frame_saveMemory (argument : List Char) : view (saveMemory argument s) = view s := by
  unfold saveMemory
  split
  case h_2 => exact h.printLine s _
  case h_1 =>
    split
    case h_1 => exact h.printLine s _
    case h_2 =>
      split
      case h_1 => exact h.printLine s _
      case h_2 =>
        split
        case isTrue => exact h.printLine s _
        case isFalse =>
          split
          case h_1 => exact h.printLine s _
          case h_2 => exact (frame_reportSaved h _ _ fun _ => rfl).trans (h.onDisk s _)

theorem frame_edit (argument : List Char) : view (edit argument s).1 = view s := by
  unfold edit
  dsimp only
  repeat' split
  all_goals simp only [h.printLine]

theorem frame_switchDrive (letter : Char) : view (switchDrive letter s) = view s := by
  unfold switchDrive
  split
  case h_1 => exact h.onDisk s _
  case h_2 => exact h.printLine s _

/-- A command that is not a program leaves the view as it is. -/
theorem frame_perform {command : Command} (hcommand : ∀ word, command ≠ .program word)
    (tail : List Char) : view (perform command tail s).1 = view s := by
  cases command with
  | directory => exact frame_listDirectory h s tail
  | type => exact frame_typeFile h s tail
  | erase => exact frame_erase h s tail
  | rename => exact frame_rename h s tail
  | assemble => exact frame_assembleFile h s tail
  | save => exact frame_saveMemory h s tail
  | edit => exact frame_edit h s tail
  | basic | exit => rfl
  | help => exact h.printLines s help
  | switchDrive letter => exact frame_switchDrive h s letter
  | program word => exact absurd rfl (hcommand word)

end CommandLine

end Cpm80
