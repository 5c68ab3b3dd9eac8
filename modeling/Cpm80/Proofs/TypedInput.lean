import Cpm80.Console
import Mathlib.Data.List.TakeDrop

/-!
# Typed bytes in the console queue

Typing in pieces queues the same bytes as typing at once, also when a carriage return and its
line feed fall into different pieces. What is typed later stands behind what is waiting: it
changes neither the byte nor the line that a program takes, as long as there is one to take.
-/
namespace Cpm80.Console

theorem foldedFrom_eq (done : List UInt8) (afterReturn : Bool) (bytes : List UInt8) :
    foldedFrom done afterReturn bytes =
      (done.reverse ++ (foldedFrom [] afterReturn bytes).1,
        (foldedFrom [] afterReturn bytes).2) := by
  induction bytes generalizing done afterReturn with
  | nil => simp [foldedFrom]
  | cons b rest ih =>
    simp only [foldedFrom]
    rw [ih, ih (if afterReturn ∧ b = lineFeed then [] else [b])]
    split <;> simp

theorem foldedFrom_cons (afterReturn : Bool) (b : UInt8) (rest : List UInt8) :
    foldedFrom [] afterReturn (b :: rest) =
      ((if afterReturn ∧ b = lineFeed then [] else [b]) ++
        (foldedFrom [] (b = carriageReturn) rest).1,
        (foldedFrom [] (b = carriageReturn) rest).2) := by
  rw [foldedFrom, foldedFrom_eq]
  split <;> rfl

theorem foldedFrom_append (afterReturn : Bool) (front back : List UInt8) :
    foldedFrom [] afterReturn (front ++ back) =
      ((foldedFrom [] afterReturn front).1 ++
        (foldedFrom [] (foldedFrom [] afterReturn front).2 back).1,
        (foldedFrom [] (foldedFrom [] afterReturn front).2 back).2) := by
  induction front generalizing afterReturn with
  | nil => rfl
  | cons b rest ih =>
    rw [List.cons_append, foldedFrom_cons, foldedFrom_cons, ih]
    simp only [List.append_assoc]

@[simp] theorem type_nil (c : Console) : c.type [] = c := by
  simp [type, foldedFrom]

/-- How the typed bytes are cut into pieces does not matter. -/
theorem type_append (c : Console) (front back : List UInt8) :
    c.type (front ++ back) = (c.type front).type back := by
  simp [type, foldedFrom_append]

@[simp] theorem input_type (c : Console) (bytes : List UInt8) :
    (c.type bytes).input = c.input ++ (foldedFrom [] c.afterReturn bytes).1 := rfl

theorem putByte_type (c : Console) (b : UInt8) (bytes : List UInt8) :
    (c.type bytes).putByte b = (c.putByte b).type bytes := rfl

theorem putBytes_type (c : Console) (shown bytes : List UInt8) :
    (c.type bytes).putBytes shown = (c.putBytes shown).type bytes := rfl

theorem hasInput_type {c : Console} (h : c.hasInput = true) (bytes : List UInt8) :
    (c.type bytes).hasInput = true := by
  cases hc : c.input <;> simp_all [hasInput]

theorem hasLine_type {c : Console} (h : c.hasLine = true) (bytes : List UInt8) :
    (c.type bytes).hasLine = true := by
  simp only [hasLine, input_type, List.any_append] at h ⊢
  simp [h]

/-- A byte that is waiting is taken whatever has been typed behind it. -/
theorem getByte_type {c : Console} (h : c.hasInput = true) (bytes : List UInt8) :
    (c.type bytes).getByte = (c.getByte.1, c.getByte.2.type bytes) := by
  obtain ⟨input, output, r⟩ := c
  cases input with
  | nil => simp [hasInput] at h
  | cons b rest => rfl

/-- Where the line that is waiting ends. -/
theorem exists_line {c : Console} (h : c.hasLine = true) :
    ∃ line stop rest, c.input = line ++ stop :: rest ∧ (∀ b ∈ line, isLineEnd b = false) ∧
      isLineEnd stop = true := by
  obtain ⟨stop, hstop⟩ := Option.isSome_iff_exists.mp
    (List.find?_isSome.mpr (List.any_eq_true.mp h))
  obtain ⟨hend, line, rest, hinput, hline⟩ := List.find?_eq_some_iff_append.mp hstop
  exact ⟨line, stop, rest, hinput, by simpa using hline, hend⟩

theorem getLine_eq {c : Console} {line rest : List UInt8} {stop : UInt8}
    (hinput : c.input = line ++ stop :: rest) (hline : ∀ b ∈ line, isLineEnd b = false)
    (hstop : isLineEnd stop = true) :
    c.getLine = (some line, { c with input := rest }) := by
  have hspan : c.input.span (fun b => !isLineEnd b) = (line, stop :: rest) := by
    have hpos : ∀ b ∈ line, (!isLineEnd b) = true := fun b hb => by simp [hline b hb]
    rw [List.span_eq_takeWhile_dropWhile, hinput, List.takeWhile_append_of_pos hpos,
      List.dropWhile_append_of_pos hpos]
    simp [hstop]
  unfold getLine
  rw [hspan]
  cases line <;> rfl

/-- A line that is waiting is taken whatever has been typed behind it. -/
theorem getLine_type {c : Console} (h : c.hasLine = true) (bytes : List UInt8) :
    (c.type bytes).getLine = (c.getLine.1, c.getLine.2.type bytes) := by
  obtain ⟨line, stop, rest, hinput, hline, hstop⟩ := exists_line h
  have htyped : (c.type bytes).input =
      line ++ stop :: (rest ++ (foldedFrom [] c.afterReturn bytes).1) := by
    simp [hinput]
  rw [getLine_eq htyped hline hstop, getLine_eq hinput hline hstop]
  rfl

end Cpm80.Console
