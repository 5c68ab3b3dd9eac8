import Cpm80.Proofs.TypedInput
import Mathlib.Data.List.TakeWhile

/-!
# No byte of the queue is lost

Bytes go through the console queue in the order in which they are typed, and each of them is taken
once. Only a line feed right after a carriage return is dropped, which is decided when it is typed
and from what was typed before it: neither the pieces that the bytes come in nor what has been
taken meanwhile has to do with it.
-/
namespace Cpm80.Console

/-! ## Folding -/

/-- The bytes without the line feeds that directly follow a carriage return. -/
def folded : List UInt8 → List UInt8
  | [] => []
  | [b] => [b]
  | b :: next :: rest =>
    if b = carriageReturn ∧ next = lineFeed then b :: folded rest else b :: folded (next :: rest)

theorem folded_cons_of_ne {b : UInt8} (h : b ≠ carriageReturn) (rest : List UInt8) :
    folded (b :: rest) = b :: folded rest := by
  cases rest with
  | nil => rfl
  | cons next rest => rw [folded, if_neg fun hpair => h hpair.1]

theorem folded_return_lineFeed (rest : List UInt8) :
    folded (carriageReturn :: lineFeed :: rest) = carriageReturn :: folded rest := by
  rw [folded, if_pos ⟨rfl, rfl⟩]

theorem folded_return_of_ne {b : UInt8} (h : b ≠ lineFeed) (rest : List UInt8) :
    folded (carriageReturn :: b :: rest) = carriageReturn :: folded (b :: rest) := by
  rw [folded, if_neg fun hpair => h hpair.2]

/-- Typed bytes are folded as they come, with what came before them or not. -/
theorem foldedFrom_eq_folded (bytes : List UInt8) :
    (foldedFrom [] false bytes).1 = folded bytes ∧
      carriageReturn :: (foldedFrom [] true bytes).1 = folded (carriageReturn :: bytes) := by
  induction bytes with
  | nil => exact ⟨rfl, rfl⟩
  | cons b rest ih =>
    obtain ⟨hplain, hreturn⟩ := ih
    have hfirst : (foldedFrom [] false (b :: rest)).1 = folded (b :: rest) := by
      rw [foldedFrom_cons]
      by_cases hb : b = carriageReturn
      · simpa [hb] using hreturn
      · simpa [hb, folded_cons_of_ne hb] using hplain
    refine ⟨hfirst, ?_⟩
    by_cases hb : b = lineFeed
    · subst hb
      rw [folded_return_lineFeed, foldedFrom_cons]
      simpa [lineFeed, carriageReturn] using hplain
    · rw [folded_return_of_ne hb, ← hfirst, foldedFrom_cons, foldedFrom_cons]
      simp [hb]

theorem input_type_empty (bytes : List UInt8) : (type {} bytes).input = folded bytes := by
  rw [input_type]
  exact (foldedFrom_eq_folded bytes).1

/-! ## Uses of the queue -/

inductive Use
  | type (bytes : List UInt8)
  | getByte
  | getLine

/-- The bytes typed in a use. -/
def Use.bytes : Use → List UInt8
  | type bytes => bytes
  | getByte | getLine => []

/-- All that is typed in the uses. -/
def typedIn (uses : List Use) : List UInt8 :=
  uses.flatMap Use.bytes

def use (c : Console) : Use → Console
  | .type bytes => c.type bytes
  | .getByte => c.getByte.2
  | .getLine => c.getLine.2

def afterUses (c : Console) (uses : List Use) : Console :=
  uses.foldl use c

/-- The bytes that a use hands out: the byte, or the line with the end that it had, if any. -/
def taken (c : Console) : Use → List UInt8
  | .type _ => []
  | .getByte => c.getByte.1.toList
  | .getLine => c.getLine.1.getD [] ++ (c.input.find? isLineEnd).toList

/-- The bytes that the uses hand out one after another. -/
def takenIn (c : Console) : List Use → List UInt8
  | [] => []
  | u :: rest => c.taken u ++ (c.use u).takenIn rest

variable {c : Console}

/-- A line that has its end is handed out up to that end. -/
theorem getLine_of_hasLine (h : c.hasLine = true) :
    c.getLine.1 = some (c.input.takeWhile fun b => b ≠ carriageReturn ∧ b ≠ lineFeed) := by
  obtain ⟨line, stop, rest, hinput, hline, hstop⟩ := exists_line h
  have hinside : ∀ b ∈ line, decide (b ≠ carriageReturn ∧ b ≠ lineFeed) = true := by
    intro b hb
    simpa [isLineEnd] using hline b hb
  have hends : decide (stop ≠ carriageReturn ∧ stop ≠ lineFeed) = false := by
    simpa [isLineEnd, or_iff_not_imp_left] using hstop
  rw [getLine_eq hinput hline hstop, hinput, List.takeWhile_append_of_pos hinside,
    List.takeWhile_cons_of_neg (by simp [hends]), List.append_nil]

/-- A line without an end is all there is. -/
theorem getLine_of_not_hasLine (h : c.hasLine = false) :
    c.getLine.1.getD [] = c.input ∧ c.getLine.2.input = [] := by
  have hspan : c.input.span (fun b => !isLineEnd b) = (c.input, []) := by
    have hpos : ∀ b ∈ c.input, (!isLineEnd b) = true := by
      simpa [hasLine] using h
    rw [List.span_eq_takeWhile_dropWhile, List.takeWhile_eq_self_iff.mpr hpos,
      List.dropWhile_eq_nil_iff.mpr hpos]
  obtain ⟨input, output, r⟩ := c
  unfold getLine
  dsimp only at hspan ⊢
  rw [hspan]
  cases input <;> exact ⟨rfl, rfl⟩

/-- What a use hands out comes off the front of the queue. -/
theorem taken_append_input (c : Console) {u : Use} (h : u.bytes = []) :
    c.taken u ++ (c.use u).input = c.input := by
  cases u with
  | type bytes =>
    obtain rfl : bytes = [] := h
    simp [taken, use]
  | getByte =>
    obtain ⟨input, output, r⟩ := c
    cases input <;> rfl
  | getLine =>
    cases hline : c.hasLine with
    | true =>
      obtain ⟨line, stop, rest, hinput, hinside, hstop⟩ := exists_line hline
      have hend : c.input.find? isLineEnd = some stop :=
        List.find?_eq_some_iff_append.mpr ⟨hstop, line, rest, hinput, by simpa using hinside⟩
      simp only [taken, use, hend, getLine_eq hinput hinside hstop, Option.getD_some,
        Option.toList_some]
      rw [hinput, List.append_assoc, List.singleton_append]
    | false =>
      obtain ⟨hall, hnothing⟩ := getLine_of_not_hasLine hline
      have hend : c.input.find? isLineEnd = none := by
        simpa [hasLine] using hline
      simp [taken, use, hend, hall, hnothing]

theorem afterReturn_use (c : Console) (u : Use) :
    (c.use u).afterReturn = (c.type u.bytes).afterReturn := by
  cases u with
  | type bytes => rfl
  | getByte =>
    obtain ⟨input, output, r⟩ := c
    cases input <;> rfl
  | getLine =>
    simp only [use, Use.bytes, type_nil, getLine]
    split <;> rfl

/-- The queue holds what is left of what has been typed, and folding goes on where the latest byte
typed has left it. -/
structure Holds (c : Console) (out typed : List UInt8) : Prop where
  queue : out ++ c.input = (type {} typed).input
  afterReturn : c.afterReturn = (type {} typed).afterReturn

theorem holds_empty : Holds {} [] [] :=
  ⟨rfl, rfl⟩

theorem Holds.use {out typed : List UInt8} (h : c.Holds out typed) (u : Use) :
    (c.use u).Holds (out ++ c.taken u) (typed ++ u.bytes) where
  queue := by
    rw [type_append, input_type, ← h.afterReturn, ← h.queue]
    cases u with
    | type bytes => simp [Console.use, taken, Use.bytes]
    | getByte | getLine =>
      rw [List.append_assoc, taken_append_input c rfl, Use.bytes, foldedFrom, List.append_assoc]
      simp
  afterReturn := by
    rw [afterReturn_use, type_append]
    simp only [type, h.afterReturn]

theorem Holds.afterUses {out typed : List UInt8} (h : c.Holds out typed) (uses : List Use) :
    (c.afterUses uses).Holds (out ++ c.takenIn uses) (typed ++ typedIn uses) := by
  induction uses generalizing c out typed with
  | nil => simpa [takenIn, typedIn, Console.afterUses] using h
  | cons u rest ih =>
    have hrest := ih (h.use u)
    rw [List.append_assoc, List.append_assoc] at hrest
    exact hrest

/-- However bytes are typed and taken in turn, what has been taken and what is left in the queue is
together what has been typed, folded; so it does not depend on the pieces nor on the times at which
bytes are taken. A line that has its end is handed out up to the first end in the queue. -/
theorem queue_keeps_bytes (uses : List Use) :
    takenIn {} uses ++ (afterUses {} uses).input = folded (typedIn uses) ∧
      (∀ others, typedIn others = typedIn uses →
        takenIn {} others ++ (afterUses {} others).input =
          takenIn {} uses ++ (afterUses {} uses).input) ∧
      ∀ c : Console, c.hasLine = true →
        c.getLine.1 = some (c.input.takeWhile fun b => b ≠ carriageReturn ∧ b ≠ lineFeed) := by
  have hall (uses : List Use) :
      takenIn {} uses ++ (afterUses {} uses).input = folded (typedIn uses) := by
    have hqueue := (holds_empty.afterUses uses).queue
    rwa [List.nil_append, List.nil_append, input_type_empty] at hqueue
  refine ⟨hall uses, fun others h => ?_, fun c h => getLine_of_hasLine h⟩
  rw [hall, hall, h]

/-- The end of a line whose two bytes come apart, the first of them taken before the second is
typed. -/
def splitEnd : List Use :=
  [.type [0x41, carriageReturn], .getLine, .type [lineFeed, 0x42], .getByte, .getLine]

theorem queue_keeps_bytes_splitEnd :
    typedIn splitEnd = typedIn [.type [0x41, carriageReturn, lineFeed, 0x42]] ∧
      takenIn {} splitEnd = [0x41, carriageReturn, 0x42] ∧
      (type {} [0x41, carriageReturn]).getLine.1 = some [0x41] := by
  obtain ⟨-, hpieces, hline⟩ := queue_keeps_bytes [.type [0x41, carriageReturn, lineFeed, 0x42]]
  have hsame := hpieces splitEnd (by decide)
  have hempty : (afterUses {} splitEnd).input = [] := by decide
  rw [hempty, List.append_nil] at hsame
  exact ⟨by decide, hsame.trans (by decide), (hline _ (by decide)).trans (by decide)⟩

end Cpm80.Console
