import Cpm80.Proofs.FileNames
import Cpm80.Proofs.Numerals
import Cpm80.Proofs.PaddedNames
import Cpm80.Proofs.ProgramFiles
import Cpm80.Proofs.ProgramRuns
import Cpm80.Proofs.TextFiles
import Mathlib.Data.List.Basic

/-!
# Programs that are saved and loaded again

A line of a program is saved as its number, a space and its code. The code has no blank at its
ends, so the number ends at the space and the code is what is left when the line is trimmed: the
line that is read back is entered as the one that was saved. Lines are saved in ascending order,
so each is entered behind all the others.
-/
namespace Cpm80

open Text

namespace SortedMap

variable {α β : Type} [LT α] [DecidableEq α] [DecidableLT α] [KeyOrder α]

/-- A key above all others is put at the end. -/
theorem placed_of_forall_lt {k : α} {v : β} {entries : List (α × β)}
    (h : ∀ e ∈ entries, e.1 < k) : placed k v entries = entries ++ [(k, v)] := by
  induction entries with
  | nil => rfl
  | cons e entries ih =>
    obtain ⟨hfirst, hrest⟩ := List.forall_mem_cons.mp h
    have hafter : ¬k < e.1 := fun hlt => KeyOrder.irrefl k (KeyOrder.trans hlt hfirst)
    have hother : e.1 ≠ k := by
      rintro rfl
      exact KeyOrder.irrefl _ hfirst
    rw [placed, if_neg hafter, if_neg hother, ih hrest, List.cons_append]

/-- Entries that ascend are inserted one behind the other. -/
theorem entries_foldl_insert {entries : List (α × β)} {m : SortedMap α β}
    (h : Ascending (m.entries ++ entries)) :
    (entries.foldl (fun m e => m.insert e.1 e.2) m).entries = m.entries ++ entries := by
  induction entries generalizing m with
  | nil => rw [List.foldl_nil, List.append_nil]
  | cons e entries ih =>
    have hlast : ∀ d ∈ m.entries, d.1 < e.1 := fun d hd =>
      (List.pairwise_append.mp h).2.2 d hd e List.mem_cons_self
    have hinserted : (m.insert e.1 e.2).entries = m.entries ++ [e] := placed_of_forall_lt hlast
    have hsame : m.entries ++ e :: entries = (m.insert e.1 e.2).entries ++ entries := by
      rw [hinserted, List.append_assoc, List.singleton_append]
    rw [List.foldl_cons, hsame]
    exact ih (hsame ▸ h)

theorem ofList_entries (m : SortedMap α β) : ofList m.entries = m := by
  have hentries : (ofList m.entries).entries = m.entries :=
    entries_foldl_insert (m := empty) m.ascending
  generalize ofList m.entries = n at hentries
  obtain ⟨others, hothers⟩ := n
  obtain ⟨entries, hascending⟩ := m
  subst hentries
  rfl

end SortedMap

namespace Basic

open TextFile Numeral

/-! ## Lines of a program -/

/-- Code as it is kept: it is a line of a file without blanks at its ends. -/
structure IsCode (code : List Char) : Prop where
  some : code ≠ []
  tight : Tight code
  feed : '\n' ∉ code
  mark : endChar ∉ code

namespace Program

variable {p : Program} {line code : List Char} {n : Nat}

/-- Every line of the program can be saved. -/
def Plain (p : Program) : Prop :=
  ∀ entry ∈ p.entries, entry.1 ≤ maxLineNumber ∧ IsCode entry.2

theorem plain_empty : Plain .empty := nofun

theorem Plain.enter? (h : p.Plain) (hfeed : '\n' ∉ line) (hmark : endChar ∉ line) {q : Program}
    (hq : p.enter? line = some q) : q.Plain := by
  obtain ⟨n, hn, rfl⟩ := Option.map_eq_some_iff.mp hq
  have hchars : ∀ c, c ∈ trim (line.dropWhile Char.isDigit) → c ∈ line := fun c hc =>
    (List.dropWhile_sublist _).subset (trim_subset _ hc)
  split
  case isTrue => exact fun entry hentry => h entry (List.mem_of_mem_filter hentry)
  case isFalse hsome =>
    intro entry hentry
    have hplaced : entry = (n, _) ∨ entry ∈ p.entries := SortedMap.mem_placed hentry
    rcases hplaced with rfl | hentry
    · exact ⟨le_of_bounded? hn, mt List.isEmpty_iff.mpr hsome, tight_trim _,
        mt (hchars _) hfeed, mt (hchars _) hmark⟩
    · exact h entry hentry

theorem Plain.enterFromFile (h : p.Plain) (hline : IsLine line) : (p.enterFromFile line).Plain := by
  have hchars : ∀ c, c ∈ trim line → c ∈ line := fun c hc => trim_subset _ hc
  unfold Program.enterFromFile
  dsimp only
  split
  case isFalse => exact h
  case isTrue =>
    cases hq : p.enter? (trim line) with
    | none => exact h
    | some q => exact h.enter? (mt (hchars _) hline.feed) (mt (hchars _) hline.mark) hq

/-- Whatever the bytes of a file are, the program that is read from it can be saved. -/
theorem plain_ofFile (content : Array UInt8) : Plain (ofFile content) := by
  have hfold : ∀ (lines : List (List Char)) (p : Program), (∀ line ∈ lines, IsLine line) →
      p.Plain → Plain (lines.foldl enterFromFile p) := by
    intro lines
    induction lines with
    | nil => exact fun p _ h => h
    | cons line lines ih =>
      intro p hlines h
      obtain ⟨hline, hlines⟩ := List.forall_mem_cons.mp hlines
      exact ih _ hlines (h.enterFromFile hline)
  exact hfold _ _ (fun line hline => isLine_of_mem_lines hline) plain_empty

theorem lineText_append (n : Nat) (code : List Char) :
    lineText (n, code) = n.repr.toList ++ ' ' :: code := rfl

theorem isLine_lineText (h : IsCode code) (n : Nat) : IsLine (lineText (n, code)) := by
  have hdigits : ∀ c : Char, c.isDigit = false → c ∉ n.repr.toList := by
    intro c hc hmem
    rw [isDigit_of_mem_repr hmem] at hc
    cases hc
  have hnotMem : ∀ c : Char, c.isDigit = false → c ≠ ' ' → c ∉ code →
      c ∉ lineText (n, code) := by
    intro c hdigit hspace hcode hmem
    rcases List.mem_append.mp hmem with hmem | hmem
    · exact hdigits c hdigit hmem
    · rcases List.mem_cons.mp hmem with hmem | hmem
      · exact hspace hmem
      · exact hcode hmem
  refine ⟨hnotMem _ (by decide) (by decide) h.feed, hnotMem _ (by decide) (by decide) h.mark, ?_⟩
  rw [lineText_append, List.getLast?_append_cons, List.getLast?_cons_of_ne_nil h.some]
  intro hlast
  exact absurd (h.tight.2 _ hlast) (by decide)

theorem exists_head?_lineText (n : Nat) (code : List Char) :
    ∃ c, (lineText (n, code)).head? = some c ∧ c.isDigit = true := by
  obtain ⟨c, rest, hdigits⟩ := List.exists_cons_of_ne_nil (repr_ne_nil n)
  refine ⟨c, ?_, isDigit_of_mem_repr (hdigits ▸ List.mem_cons_self)⟩
  rw [lineText_append, hdigits]
  rfl

theorem tight_lineText (h : IsCode code) (n : Nat) : Tight (lineText (n, code)) := by
  obtain ⟨first, hfirst, hdigit⟩ := exists_head?_lineText n code
  constructor
  · intro c hc
    obtain rfl := Option.mem_unique hfirst hc
    exact isBlank_of_isDigit hdigit
  · rw [lineText_append, List.getLast?_append_cons, List.getLast?_cons_of_ne_nil h.some]
    exact h.tight.2

/-- A line that was saved is entered as it was. -/
theorem enterFromFile_lineText (h : IsCode code) (hn : n ≤ maxLineNumber) (p : Program) :
    p.enterFromFile (lineText (n, code)) = p.insert n code := by
  have hdigits : ∀ c ∈ n.repr.toList, c.isDigit = true := fun c hc => isDigit_of_mem_repr hc
  have hnumbered : isNumbered (lineText (n, code)) = true := by
    obtain ⟨first, hfirst, hdigit⟩ := exists_head?_lineText n code
    rw [isNumbered, hfirst, Option.any_some, hdigit]
  have hnumber : (lineText (n, code)).takeWhile Char.isDigit = n.repr.toList := by
    rw [lineText_append, List.takeWhile_append_of_pos hdigits]
    simp
  have hcode : (lineText (n, code)).dropWhile Char.isDigit = ' ' :: code := by
    rw [lineText_append, List.dropWhile_append_of_pos hdigits]
    simp
  have htrim : trim (' ' :: code) = code := by
    rw [trim, trimStart_cons_of_blank rfl]
    exact trim_of_tight h.tight
  have hsome : code.isEmpty = false := List.isEmpty_eq_false_iff.mpr h.some
  have hentered : p.enter? (lineText (n, code)) = some (p.insert n code) := by
    simp only [enter?, hnumber, hcode, htrim, bounded?_repr hn, hsome, Option.map_some,
      Bool.false_eq_true, if_false]
  simp only [enterFromFile, trim_of_tight (tight_lineText h n), hnumbered, if_true, hentered,
    Option.getD_some]

theorem ofFile_toFile (h : p.Plain) : ofFile p.toFile = p := by
  have hlines : ∀ line ∈ p.entries.map lineText, IsLine line := by
    intro line hline
    obtain ⟨⟨n, code⟩, hentry, rfl⟩ := List.mem_map.mp hline
    exact isLine_lineText (h _ hentry).2 n
  have hfold : ∀ (entries : List (Nat × List Char)) (q : Program),
      (∀ entry ∈ entries, entry.1 ≤ maxLineNumber ∧ IsCode entry.2) →
        (entries.map lineText).foldl enterFromFile q =
          entries.foldl (fun q entry => q.insert entry.1 entry.2) q := by
    intro entries
    induction entries with
    | nil => exact fun q _ => rfl
    | cons entry entries ih =>
      intro q hentries
      obtain ⟨⟨hn, hcode⟩, hentries⟩ := List.forall_mem_cons.mp hentries
      rw [List.map_cons, List.foldl_cons, List.foldl_cons, ih _ hentries]
      rw [enterFromFile_lineText hcode hn]
  rw [ofFile, toFile, lines_ofLines hlines, hfold _ _ h]
  exact SortedMap.ofList_entries p

end Program

/-! ## Entering lines -/

namespace Interpreter

variable {i j : Interpreter} {line argument : List Char} {s t : Station}

/-- The interpreters that new ones become when they are given lines without a line feed and an end
mark. The lines may be commands and replies as well, and the station may change in between. -/
inductive Entered : Interpreter → Prop
  | start : Entered {}
  | handle {i : Interpreter} (h : Entered i) (budget : Nat) (line : List Char) (s : Station)
    (hfeed : '\n' ∉ line) (hmark : endChar ∉ line) : Entered (i.handle budget line s).1

theorem program_resume (budget : Nat) (i : Interpreter) (r : Run) (c : Console) :
    (resume budget i r c).1.program = i.program := by
  induction budget generalizing i r c with
  | zero =>
    rw [resume]
    split <;> rfl
  | succ budget ih =>
    rw [resume]
    split
    case h_1 => rfl
    case h_2 =>
      dsimp only
      split
      case h_1 | h_2 => exact ih ..
      case h_3 | h_4 | h_5 => rfl

theorem program_takeReply (budget : Nat) (i : Interpreter) (r : Run) (name : String)
    (line : List Char) (c : Console) :
    (takeReply budget i r name line c).1.program = i.program := by
  unfold takeReply
  split
  case h_1 => rfl
  case h_2 => rw [program_resume]

theorem program_run (budget : Nat) (i : Interpreter) (c : Console) :
    (run budget i c).1.program = i.program := by
  unfold run
  split
  case isTrue => rfl
  case isFalse => rw [program_resume]

theorem plain_load (h : i.program.Plain) (argument : List Char) (s : Station) :
    (i.load argument s).1.program.Plain := by
  unfold load
  dsimp only
  split
  case h_1 => exact h
  case h_2 =>
    split
    case h_1 => exact h
    case h_2 content hcontent => exact Program.plain_ofFile content

theorem plain_perform (h : i.program.Plain) (budget : Nat) (command : Command)
    (argument : List Char) (s : Station) :
    (perform budget command argument i s).1.program.Plain := by
  cases command with
  | new => exact Program.plain_empty
  | list | clear | help | quit => exact h
  | run =>
    simp only [perform, program_run]
    exact h
  | save =>
    rw [perform, save_fst]
    exact h
  | load => exact plain_load h argument s

/-- A program that can be saved is left, or made, by every line without a line feed and an end
mark. -/
theorem plain_handle (h : i.program.Plain) (budget : Nat) (s : Station) (hfeed : '\n' ∉ line)
    (hmark : endChar ∉ line) : (i.handle budget line s).1.program.Plain := by
  have hchars : ∀ c, c ∈ trim line → c ∈ line := fun c hc => trim_subset _ hc
  unfold handle
  split
  case h_2 r name hwaiting =>
    simp only [program_takeReply]
    exact h
  case h_1 =>
    unfold obey
    dsimp only
    split
    case isTrue =>
      split
      case h_1 q hq => exact h.enter? (mt (hchars _) hfeed) (mt (hchars _) hmark) hq
      case h_2 => exact h
    case isFalse =>
      split
      case isTrue => exact h
      case isFalse =>
        split
        case h_1 => exact plain_perform h budget _ _ s
        case h_2 => exact h

theorem Entered.plain (h : Entered i) : i.program.Plain := by
  induction h with
  | start => exact Program.plain_empty
  | handle h budget line s hfeed hmark ih => exact plain_handle ih budget s hfeed hmark

/-! ## Saving and loading -/

/-- The line gives a command to an interpreter that asks for one. -/
structure Commands (i : Interpreter) (line : List Char) (command : Command)
    (argument : List Char) : Prop where
  waiting : i.waiting = none
  unnumbered : isNumbered (trim line) = false
  word : Command.ofWord? (upper (splitWord (trim line)).1) = some command
  argument_eq : trim (splitWord (trim line)).2 = argument

theorem Commands.handle {command : Command} (h : Commands i line command argument) (budget : Nat)
    (s : Station) : i.handle budget line s = perform budget command argument i s := by
  have hsome : (trim line).isEmpty = false := by
    rw [List.isEmpty_eq_false_iff]
    intro hnil
    have hword := h.word
    rw [hnil] at hword
    cases hword
  simp only [Interpreter.handle, h.waiting, obey, h.unnumbered, hsome, h.word, h.argument_eq,
    Bool.false_eq_true, if_false]

/-- A program that has been saved is there again, whatever the interpreter has done since, when
it is loaded with the same argument and the file is as it was left: each line number has the
same code, and as many lines are reported to be loaded as were reported to be saved. -/
theorem saved_program_restored (h : Entered i) (hsave : Commands i line .save argument)
    (hsome : argument ≠ [])
    (hsuccess : (s.disk.saveFile s.disk.current (fileName argument) i.program.toFile).2 =
      some none)
    (budget : Nat) {again : List Char} (hload : Commands j again .load argument)
    (hfile : t.disk.file? t.disk.current (fileName argument) =
      (i.handle budget line s).2.1.disk.file? s.disk.current (fileName argument)) :
    i.handle budget line s =
        (i, ((s.onDisk fun d =>
            (d.saveFile d.current (fileName argument) i.program.toFile).1).printLine
              (countOf i.program "Saved" "to" (fileName argument))).print prompt, .ready) ∧
      ∀ budget', j.handle budget' again t =
        ({ j with program := i.program, bindings := .empty },
          (t.printLine (countOf i.program "Loaded" "from" (fileName argument))).print prompt,
          .ready) := by
  have hsaved : i.handle budget line s =
      (i, ((s.onDisk fun d =>
          (d.saveFile d.current (fileName argument) i.program.toFile).1).printLine
            (countOf i.program "Saved" "to" (fileName argument))).print prompt, .ready) := by
    have hargument : argument.isEmpty = false := List.isEmpty_eq_false_iff.mpr hsome
    rw [hsave.handle, perform, save, hargument, if_neg Bool.false_ne_true]
    obtain ⟨m, d, c, u⟩ := s
    simp only [hsuccess]
    rfl
  refine ⟨hsaved, fun budget' => ?_⟩
  have hcontent : t.disk.file? t.disk.current (fileName argument) = some i.program.toFile := by
    rw [hfile, hsaved]
    exact DiskSystem.file?_saveFile hsuccess
  rw [DiskSystem.file?, Option.bind_eq_some_iff] at hcontent
  obtain ⟨drive, hdrive, hcontent⟩ := hcontent
  rw [hload.handle, perform, load]
  simp only [hdrive, hcontent, Program.ofFile_toFile h.plain]
  rfl

def emptyStation : Station :=
  .ofDrives [.memory .empty]

/-- An interpreter that has been given two lines: one with the largest number, without a blank in
front of its code, and one whose code has a carriage return and a character of three bytes in it. -/
def twoLines : Interpreter :=
  (({} : Interpreter).handle 0 "4294967295PRINT 1".toList emptyStation).1.handle 0
    " 007 REM A\r€  ".toList emptyStation |>.1

theorem saved_program_restored_twoLines :
    twoLines.program.entries =
        [(7, "REM A\r€".toList), (4294967295, "PRINT 1".toList)] ∧
      (({} : Interpreter).handle 0 "LOAD p".toList
        (twoLines.handle 0 "save p".toList emptyStation).2.1).1.program.entries =
          [(7, "REM A\r€".toList), (4294967295, "PRINT 1".toList)] := by
  have hentered : Entered twoLines :=
    .handle (.handle .start 0 _ emptyStation (by decide) (by decide)) 0 _ emptyStation
      (by decide) (by decide)
  have hsave : Commands twoLines "save p".toList .save ['p'] :=
    ⟨by decide, by decide, by decide, by decide⟩
  have hload : Commands {} "LOAD p".toList .load ['p'] :=
    ⟨by decide, by decide, by decide, by decide⟩
  have hprogram : twoLines.program.entries =
      [(7, "REM A\r€".toList), (4294967295, "PRINT 1".toList)] := by
    decide
  have hsuccess : (emptyStation.disk.saveFile emptyStation.disk.current (fileName ['p'])
      twoLines.program.toFile).2 = some none := by
    decide
  have hrestored := (saved_program_restored hentered hsave (by decide) hsuccess 0 hload rfl).2 0
  refine ⟨hprogram, ?_⟩
  rw [hrestored]
  exact hprogram

end Interpreter

end Basic

end Cpm80
