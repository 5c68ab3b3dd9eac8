import Cpm80.LineEditor
import Cpm80.Proofs.Checked.Bounds
import Cpm80.Proofs.Checked.Places

/-!
# The line editor, with every access checked

A command is cut behind its first letter, which may be of any script; a line is put in at the
cursor, and the line with a number is taken out. Each of these accesses is checked. The cursor
stays within the lines from the start of the editor on, so every line of input passes the checks.
-/
namespace Cpm80.LineEditor.Checked

open Text Cpm80.Checked

/-! ## Commands -/

def insertLine (e : LineEditor) (line : List Char) : Option LineEditor := do
  let lines ← insert? e.cursor line e.lines
  some { e with lines, cursor := e.cursor + 1 }

def deleteLine (e : LineEditor) (n : Nat) : Option LineEditor := do
  let index ← sub? n 1
  let lines ← remove? index e.lines
  if n ≤ e.cursor then do
    let cursor ← sub? e.cursor 1
    some { e with lines, cursor }
  else some { e with lines }

def delete (e : LineEditor) (argument : List Char) (s : Station) :
    Option (LineEditor × Station) :=
  match Numeral.bounded? maxNumber argument with
  | some n =>
    if 1 ≤ n ∧ n ≤ e.lines.length then do
      let e ← deleteLine e n
      some (e, s.printLine ("Deleted line " ++ n.repr))
    else some (e, s.printLine "Invalid line number")
  | none => some (e, s.printLine "Invalid line number")

def command (e : LineEditor) (input : List Char) (s : Station) :
    Option (LineEditor × Station × Status) :=
  let input := upper (trim input)
  match input.head? with
  | none => some (e, s, .editing)
  | some letter => do
    let rest ← from? letter.utf8Size input
    let argument := trim rest
    match letter with
    | 'I' =>
      some ({ e with inserting := true },
        s.printLine "Enter text (empty line to exit insert mode):", .editing)
    | 'D' => do
      let (e, s) ← delete e argument s
      some (e, s, .editing)
    | 'L' => some (e, e.list argument s, .editing)
    | 'S' => some (e, e.save s, .editing)
    | 'Q' => some (e, s, .quit)
    | 'H' => some (e, s.printLines help, .editing)
    | other => some (e, s.printLine ("Unknown command: " ++ String.singleton other), .editing)

def handle (e : LineEditor) (input : List Char) (s : Station) :
    Option (LineEditor × Station × Status) :=
  if e.inserting then do
    let e ← if input.isEmpty then some { e with inserting := false } else insertLine e input
    some (e, e.showPrompt s, .editing)
  else do
    match ← command e input s with
    | (e, s, .quit) => some (e, s, .quit)
    | (e, s, .editing) => some (e, e.showPrompt s, .editing)

/-! ## The cursor -/

/-- The next line goes in front of a line or behind the last one. -/
def Inside (e : LineEditor) : Prop :=
  e.cursor ≤ e.lines.length

variable {e : LineEditor}

theorem inside_start (drive : Nat) (fileName : String) (s : Station) :
    Inside (LineEditor.start drive fileName s).1 :=
  Nat.le_refl _

theorem Inside.insertLine (h : Inside e) (line : List Char) : Inside (e.insertLine line) := by
  rw [Inside] at h
  simp only [Inside, LineEditor.insertLine, List.length_append, List.length_take,
    List.length_cons, List.length_drop]
  omega

theorem Inside.deleteLine (h : Inside e) {n : Nat} (hfirst : 1 ≤ n) (hlast : n ≤ e.lines.length) :
    Inside (e.deleteLine n) := by
  have hindex : n - 1 < e.lines.length := by omega
  rw [Inside] at h
  simp only [Inside, LineEditor.deleteLine, List.length_eraseIdx, if_pos hindex]
  split <;> omega

theorem Inside.delete (h : Inside e) (argument : List Char) (s : Station) :
    Inside (e.delete argument s).1 := by
  rw [LineEditor.delete]
  split
  · split
    case isTrue hrange => exact h.deleteLine hrange.1 hrange.2
    case isFalse => exact h
  · exact h

theorem Inside.command (h : Inside e) (input : List Char) (s : Station) :
    Inside (e.command input s).1 := by
  unfold LineEditor.command
  split
  · exact h
  · dsimp only
    split
    case h_2 => exact h.delete _ s
    all_goals exact h

/-- Whatever is typed, the cursor stays within the lines. -/
theorem Inside.handle (h : Inside e) (input : List Char) (s : Station) :
    Inside (e.handle input s).1 := by
  rw [LineEditor.handle]
  split
  · dsimp only
    split
    · exact h
    · exact h.insertLine input
  · have hcommand := h.command input s
    generalize e.command input s = result at hcommand
    obtain ⟨e, s, status⟩ := result
    cases status <;> exact hcommand

/-! ## What is done -/

theorem insertLine_eq (h : Inside e) (line : List Char) :
    insertLine e line = some (e.insertLine line) := by
  rw [insertLine, insert?_of_le h]
  rfl

theorem deleteLine_eq {n : Nat} (hfirst : 1 ≤ n) (hlast : n ≤ e.lines.length) :
    deleteLine e n = some (e.deleteLine n) := by
  have hindex : n - 1 < e.lines.length := by omega
  simp only [deleteLine, LineEditor.deleteLine, sub?_of_le hfirst, remove?_of_lt hindex,
    Option.bind_eq_bind, Option.bind_some]
  split
  case isTrue hbefore => rw [sub?_of_le (Nat.le_trans hfirst hbefore), Option.bind_some]
  case isFalse => rfl

theorem delete_eq (argument : List Char) (s : Station) :
    delete e argument s = some (e.delete argument s) := by
  rw [delete, LineEditor.delete]
  cases Numeral.bounded? maxNumber argument with
  | none => rfl
  | some n =>
    dsimp only
    split
    case isTrue hrange =>
      rw [deleteLine_eq hrange.1 hrange.2]
      rfl
    case isFalse => rfl

theorem command_eq (input : List Char) (s : Station) :
    command e input s = some (e.command input s) := by
  unfold command LineEditor.command
  dsimp only
  generalize upper (trim input) = input
  cases input with
  | nil => rfl
  | cons letter rest =>
    have hsize : size [letter] = letter.utf8Size := by
      rw [size_cons, size_nil, Nat.add_zero]
    have hrest : from? letter.utf8Size (letter :: rest) = some rest :=
      hsize ▸ from?_size [letter] rest
    simp only [List.head?_cons, hrest, Option.bind_eq_bind, Option.bind_some, delete_eq]
    split
    case h_7 => simp only
    all_goals rfl

theorem handle_eq (h : Inside e) (input : List Char) (s : Station) :
    handle e input s = some (e.handle input s) := by
  rw [handle, LineEditor.handle]
  split
  · split
    · rfl
    · rw [insertLine_eq h]
      rfl
  · rw [command_eq, Option.bind_eq_bind, Option.bind_some]
    obtain ⟨e, s, status⟩ := e.command input s
    cases status <;> rfl

end Cpm80.LineEditor.Checked
