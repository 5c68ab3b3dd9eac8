import Cpm80.Assembler.Statement
import Cpm80.Proofs.RenderedCode

/-!
# Reading what is shown

An instruction is shown as its mnemonic and, after a space, its operands with commas between
them. There are no quotes, colons and semicolons in such a line, so it is read as an operation
without a label, and what stands between the commas are its operands.
-/
namespace Cpm80

open Text Assembler

namespace Text

/-- A character of a line that shows an instruction. -/
def IsLineChar (c : Char) : Prop :=
  IsCapital c ∨ c = ' ' ∨ c = ','

instance : DecidablePred IsLineChar := fun _ => inferInstanceAs (Decidable (_ ∨ _))

theorem IsLineChar.ne {c mark : Char} (hc : IsLineChar c) (hmark : ¬IsLineChar mark) :
    c ≠ mark := by
  rintro rfl
  exact hmark hc

/-- A line does not end within a text that has no line feed. -/
theorem linesFrom_append_of_notMem {text : List Char} (hfeed : '\n' ∉ text)
    (done : List (List Char)) (current rest : List Char) :
    linesFrom done current (text ++ rest) = linesFrom done (text.reverse ++ current) rest := by
  induction text generalizing current with
  | nil => rfl
  | cons c text ih =>
    obtain ⟨hc, htext⟩ := List.ne_and_not_mem_of_not_mem_cons hfeed
    rw [List.cons_append, linesFrom, if_neg (Ne.symm hc), ih htext, List.reverse_cons,
      List.append_assoc, List.singleton_append]

/-- A line that does not end in a carriage return is what a line feed after it ends. -/
theorem linesFrom_append {line : List Char} (hfeed : '\n' ∉ line)
    (done : List (List Char)) (current rest : List Char) :
    linesFrom done current (line ++ '\n' :: rest) =
      linesFrom (endedLine (line.reverse ++ current) :: done) [] rest := by
  rw [linesFrom_append_of_notMem hfeed, linesFrom, if_pos rfl]

/-- A text without a line feed is a single line. -/
theorem lines_of_notMem {text : List Char} (hfeed : '\n' ∉ text) (hsome : text ≠ []) :
    lines text = [text] := by
  have hreverse : text.reverse.isEmpty = false := by
    rw [List.isEmpty_eq_false_iff, ne_eq, List.reverse_eq_nil_iff]
    exact hsome
  have hend := linesFrom_append_of_notMem hfeed [] [] []
  rw [List.append_nil, List.append_nil] at hend
  rw [lines, hend, linesFrom, hreverse, List.reverse_reverse]
  rfl

theorem endedLine_reverse {line : List Char} (h : '\r' ∉ line) : endedLine line.reverse = line := by
  have hreturn : ∀ rest, line.reverse ≠ '\r' :: rest := by
    intro rest heq
    have hmem : '\r' ∈ line.reverse := heq ▸ List.mem_cons_self
    exact h (List.mem_reverse.mp hmem)
  rw [endedLine, List.reverse_reverse]
  exact hreturn

/-- Every line feed ends one line. -/
theorem lines_flatMap_feeds {ended : List Char → List Char} {texts : List (List Char)}
    (h : ∀ line ∈ texts, '\n' ∉ ended line) :
    lines (texts.flatMap fun line => ended line ++ ['\n']) =
      texts.map fun line => endedLine (ended line).reverse := by
  have hfrom : ∀ done, linesFrom done [] (texts.flatMap fun line => ended line ++ ['\n']) =
      done.reverse ++ texts.map fun line => endedLine (ended line).reverse := by
    induction texts with
    | nil =>
      intro done
      simp [linesFrom]
    | cons line texts ih =>
      intro done
      rw [List.flatMap_cons, List.append_assoc, List.singleton_append,
        linesFrom_append (h line List.mem_cons_self), List.append_nil,
        ih fun line hline => h line (List.mem_cons_of_mem _ hline), List.reverse_cons,
        List.append_assoc, List.singleton_append, List.map_cons]
  exact hfrom []

/-- Lines that are ended one by one are the lines of the text. -/
theorem lines_flatMap {texts : List (List Char)} (h : ∀ line ∈ texts, '\n' ∉ line ∧ '\r' ∉ line) :
    lines (texts.flatMap fun line => line ++ ['\n']) = texts := by
  have hended : ∀ line ∈ texts, endedLine line.reverse = line := fun line hline =>
    endedLine_reverse (h line hline).2
  rw [lines_flatMap_feeds fun line hline => (h line hline).1, List.map_congr_left hended,
    List.map_id']

end Text

namespace Assembler

theorem withoutComment_of_isLineChar {line : List Char} (h : ∀ c ∈ line, IsLineChar c) :
    withoutComment line = line :=
  withoutComment_of_outside (outside_of_forall fun c hc => (h c hc).ne (by decide))

theorem labelPart?_of_notMem {s : List Char} (h : ':' ∉ s) : labelPart? s = none := by
  have hcolon : s.dropWhile (· ≠ ':') = [] := by
    rw [List.dropWhile_eq_nil_iff]
    intro c hc
    rw [decide_eq_true_eq]
    rintro rfl
    exact h hc
  rw [labelPart?, hcolon]

theorem labelPart?_of_isLineChar {line : List Char} (h : ∀ c ∈ line, IsLineChar c) :
    labelPart? line = none :=
  labelPart?_of_notMem fun hcolon => (h ':' hcolon).ne (by decide) rfl

/-- Texts with commas between them. -/
def joined (texts : List (List Char)) : List Char :=
  [','].intercalate texts

theorem mem_joined {texts : List (List Char)} {c : Char} (hc : c ∈ joined texts) :
    c = ',' ∨ ∃ text ∈ texts, c ∈ text := by
  induction texts with
  | nil => cases hc
  | cons text texts ih =>
    cases texts with
    | nil =>
      rw [joined, List.intercalate_singleton] at hc
      exact .inr ⟨text, List.mem_cons_self, hc⟩
    | cons next texts =>
      rw [joined, List.intercalate_cons_cons, List.append_assoc, List.mem_append,
        List.singleton_append, List.mem_cons] at hc
      rcases hc with hc | hc | hc
      · exact .inr ⟨text, List.mem_cons_self, hc⟩
      · exact .inl hc
      · rcases ih hc with hcomma | ⟨other, hother, hc⟩
        · exact .inl hcomma
        · exact .inr ⟨other, List.mem_cons_of_mem text hother, hc⟩

theorem capital_or_comma_of_mem_joined {texts : List (List Char)}
    (h : ∀ text ∈ texts, Capitals text) :
    ∀ c ∈ joined texts, IsCapital c ∨ c = ',' := by
  intro c hc
  rcases mem_joined hc with hcomma | ⟨text, htext, hc⟩
  · exact .inr hcomma
  · exact .inl (h text htext c hc)

theorem unbroken_joined {texts : List (List Char)} (h : ∀ text ∈ texts, Capitals text) :
    Unbroken (joined texts) := by
  intro c hc
  rcases capital_or_comma_of_mem_joined h c hc with hcapital | rfl
  · exact hcapital.isBlank
  · decide

theorem joined_ne_nil {texts : List (List Char)} (hsome : texts ≠ [])
    (h : ∀ text ∈ texts, text ≠ []) : joined texts ≠ [] := by
  cases texts with
  | nil => exact absurd rfl hsome
  | cons text texts =>
    have htext := h text List.mem_cons_self
    cases texts with
    | nil => rwa [joined, List.intercalate_singleton]
    | cons next texts =>
      rw [joined, List.intercalate_cons_cons, List.append_assoc]
      exact List.append_ne_nil_of_left_ne_nil htext _

/-- Texts in which no comma stands outside quotes are the operands between the commas. -/
theorem splitOperandsFrom_joined {texts : List (List Char)} (hsome : texts ≠ [])
    (h : ∀ text ∈ texts, Balanced (· ≠ ',') text) (done : List (List Char)) :
    splitOperandsFrom none [] done (joined texts) = done.reverse ++ texts.map trim := by
  induction texts generalizing done with
  | nil => exact absurd rfl hsome
  | cons text texts ih =>
    obtain ⟨hcomma, hquote⟩ : Balanced (· ≠ ',') text := h text List.mem_cons_self
    have hpassed (rest : List Char) : splitOperandsFrom none [] done (text ++ rest) =
        splitOperandsFrom none text.reverse done rest := by
      rw [splitOperandsFrom_append hcomma, hquote, List.append_nil]
    cases texts with
    | nil =>
      have hend := hpassed []
      rw [List.append_nil] at hend
      rw [joined, List.intercalate_singleton, hend, splitOperandsFrom, List.reverse_reverse,
        List.reverse_cons]
      rfl
    | cons next texts =>
      have hrest := ih (List.cons_ne_nil _ _) fun other hother =>
        h other (List.mem_cons_of_mem text hother)
      rw [joined, List.intercalate_cons_cons, List.append_assoc, hpassed, List.singleton_append,
        splitOperandsFrom, if_pos ⟨rfl, rfl⟩, List.reverse_reverse, ← joined, hrest,
        List.reverse_cons, List.append_assoc, List.singleton_append, List.map_cons (a := text)]

/-- The operands of a line that shows an instruction: a Q would make them look like an `EQU`. -/
def IsOperandText (text : List Char) : Prop :=
  text ≠ [] ∧ Capitals text ∧ 'Q' ∉ text

instance (text : List Char) : Decidable (IsOperandText text) :=
  inferInstanceAs (Decidable (_ ∧ _))

/-- A mnemonic with its operands. -/
def lineOf (mnemonic : List Char) : List (List Char) → List Char
  | [] => mnemonic
  | texts => mnemonic ++ ' ' :: joined texts

section

variable {mnemonic : List Char} {texts : List (List Char)}

theorem lineOf_of_ne_nil (hsome : texts ≠ []) :
    lineOf mnemonic texts = mnemonic ++ ' ' :: joined texts := by
  cases texts with
  | nil => exact absurd rfl hsome
  | cons text texts => rfl

variable (hmnemonic : Capitals mnemonic) (htexts : ∀ text ∈ texts, IsOperandText text)

include hmnemonic htexts

theorem isLineChar_lineOf : ∀ c ∈ lineOf mnemonic texts, IsLineChar c := by
  intro c hc
  by_cases hsome : texts = []
  · rw [hsome] at hc
    exact .inl (hmnemonic c hc)
  · rw [lineOf_of_ne_nil hsome, List.mem_append, List.mem_cons] at hc
    rcases hc with hc | hc | hc
    · exact .inl (hmnemonic c hc)
    · exact .inr (.inl hc)
    · have hcapitals : ∀ text ∈ texts, Capitals text := fun text htext => (htexts text htext).2.1
      rcases capital_or_comma_of_mem_joined hcapitals c hc with hcapital | hcomma
      · exact .inl hcapital
      · exact .inr (.inr hcomma)

theorem tight_lineOf (hne : mnemonic ≠ []) : Tight (lineOf mnemonic texts) := by
  by_cases hsome : texts = []
  · rw [hsome]
    exact hmnemonic.unbroken.tight
  · rw [lineOf_of_ne_nil hsome]
    exact tight_words hmnemonic.unbroken hne
      (unbroken_joined fun text htext => (htexts text htext).2.1).tight
      (joined_ne_nil hsome fun text htext => (htexts text htext).1)

/-- A mnemonic with operands is an operation without a label. -/
theorem readOperation_lineOf (hne : mnemonic ≠ []) :
    Statement.readOperation none (lineOf mnemonic texts) =
      .ok ⟨none, some (.ofMnemonic (String.ofList mnemonic)), texts⟩ := by
  have hupper := hmnemonic.upper
  by_cases hsome : texts = []
  · subst hsome
    have hsplit := splitWord_of_unbroken hmnemonic.unbroken hne
    rw [Statement.readOperation, lineOf, hsplit]
    simp only [List.isEmpty_iff, if_neg hne]
    rw [hupper]
    rfl
  · have hunbroken := unbroken_joined fun text htext => (htexts text htext).2.1
    have hjoined := joined_ne_nil hsome fun text htext => (htexts text htext).1
    have hfirst : splitWord (mnemonic ++ ' ' :: joined texts) = (mnemonic, ' ' :: joined texts) :=
      splitWord_append hmnemonic.unbroken hne (by simp [isBlank])
    have hsecond : splitWord (' ' :: joined texts) = (joined texts, []) := by
      rw [splitWord, trimStart_cons_of_blank rfl]
      exact splitWord_of_unbroken hunbroken hjoined
    have hequ : upper (joined texts) ≠ ['E', 'Q', 'U'] := by
      intro heq
      have hq : 'Q' ∈ upper (joined texts) := by
        rw [heq]
        decide
      obtain ⟨c, hc, hcq⟩ := List.mem_map.mp hq
      rcases mem_joined hc with rfl | ⟨text, htext, hc⟩
      · exact absurd hcq (by decide)
      · obtain ⟨-, hcapitals, hnone⟩ := htexts text htext
        rw [(hcapitals c hc).toUpper] at hcq
        exact hnone (hcq ▸ hc)
    have hoperands : splitOperands (' ' :: joined texts) = texts := by
      rw [splitOperands, trim_space_cons hunbroken.tight]
      simp only [List.isEmpty_iff, if_neg hjoined]
      have hplain : ∀ text ∈ texts, Balanced (· ≠ ',') text := fun text htext =>
        balanced_of_forall fun c hc =>
          ⟨((htexts text htext).2.1 c hc).ne (by decide), ((htexts text htext).2.1 c hc).isQuote⟩
      have htrim : ∀ text ∈ texts, trim text = text := fun text htext =>
        trim_of_tight (htexts text htext).2.1.unbroken.tight
      rw [splitOperandsFrom_joined hsome hplain, List.map_congr_left htrim, List.map_id']
      rfl
    rw [Statement.readOperation, lineOf_of_ne_nil hsome, hfirst]
    simp only [List.isEmpty_iff, if_neg hne, hsecond, hequ, and_false, if_false, hupper, hoperands]

/-- A line that shows an instruction is read as its mnemonic and its operands. -/
theorem read_lineOf (hne : mnemonic ≠ []) :
    Statement.read (lineOf mnemonic texts) =
      .ok (some ⟨none, some (.ofMnemonic (String.ofList mnemonic)), texts⟩) := by
  have hchars := isLineChar_lineOf hmnemonic htexts
  have htrim : trim (withoutComment (lineOf mnemonic texts)) = lineOf mnemonic texts := by
    rw [withoutComment_of_isLineChar hchars, trim_of_tight (tight_lineOf hmnemonic htexts hne)]
  have hline : lineOf mnemonic texts ≠ [] := by
    by_cases hsome : texts = []
    · rwa [hsome]
    · rw [lineOf_of_ne_nil hsome]
      exact List.append_ne_nil_of_left_ne_nil hne _
  simp only [Statement.read, htrim, List.isEmpty_iff, if_neg hline,
    labelPart?_of_isLineChar hchars, readOperation_lineOf hmnemonic htexts hne]
  rfl

end

end Assembler

end Cpm80
