import Cpm80.Proofs.RespelledLines

/-!
# Sources in either case

Two sources whose lines say the same are assembled alike. Each statement does the same to the state
of a pass in both spellings, and is found wrong in both or in neither. So both passes go through
the same states and leave out the same lines, and the results differ at most in the texts of
the diagnostics.
-/
namespace Cpm80

open Text

namespace Assembler

variable {s t : List Char} {symbols : Symbols} {here : UInt16} {st st' : Statement} {op : Operation}
  {operands operands' : List (List Char)}

/-! ## Reading a source -/

/-- A text of lines, with a line feed between each two of them. -/
def sourceOf (lines : List (List Char)) : List Char :=
  ['\n'].intercalate lines

/-- Sources whose lines say the same, one by one. -/
def SameSource (text text' : List Char) : Prop :=
  ∃ lines lines', text = sourceOf lines ∧ text' = sourceOf lines' ∧
    List.Forall₂ SameLine lines lines' ∧
    (∀ line ∈ lines, '\n' ∉ line) ∧ ∀ line ∈ lines', '\n' ∉ line

/-- Every text is made of lines. -/
theorem exists_sourceOf (text : List Char) :
    ∃ line lines, text = sourceOf (line :: lines) ∧ ∀ l ∈ line :: lines, '\n' ∉ l := by
  induction text with
  | nil => exact ⟨[], [], rfl, List.forall_mem_singleton.mpr List.not_mem_nil⟩
  | cons c text ih =>
    obtain ⟨line, lines, rfl, hfeed⟩ := ih
    obtain ⟨hline, hlines⟩ := List.forall_mem_cons.mp hfeed
    by_cases hc : c = '\n'
    · subst hc
      refine ⟨[], line :: lines, ?_, List.forall_mem_cons.mpr ⟨List.not_mem_nil, hfeed⟩⟩
      rw [sourceOf, sourceOf, List.intercalate_cons_cons, List.nil_append, List.singleton_append]
    · refine ⟨c :: line, lines, ?_, List.forall_mem_cons.mpr ⟨?_, hlines⟩⟩
      · cases lines with
        | nil => rw [sourceOf, sourceOf, List.intercalate_singleton, List.intercalate_singleton]
        | cons next lines =>
          rw [sourceOf, sourceOf, List.intercalate_cons_cons, List.intercalate_cons_cons,
            List.cons_append, List.cons_append]
      · exact List.not_mem_cons_of_ne_of_not_mem (Ne.symm hc) hline

theorem SameSource.refl (s : List Char) : SameSource s s := by
  obtain ⟨line, lines, hs, hfeed⟩ := exists_sourceOf s
  exact ⟨_, _, hs, hs, List.forall₂_same.mpr fun l _ => .respelled (.refl none l), hfeed, hfeed⟩

/-- A carriage return at the end of a line does not matter. -/
theorem read_endedLine (line : List Char) :
    Statement.read (endedLine line.reverse) = Statement.read line := by
  apply read_of_statementText_eq
  unfold endedLine
  split
  case h_1 rest heq =>
    have hline : line = rest.reverse ++ ['\r'] := by
      rw [← List.reverse_reverse line, heq, List.reverse_cons]
    rw [hline, statementText_append_blank (by decide)]
  case h_2 => rw [List.reverse_reverse]

theorem linesFrom_done (done : List (List Char)) (current text : List Char) :
    linesFrom done current text = done.reverse ++ linesFrom [] current text := by
  induction text generalizing done current with
  | nil =>
    rw [linesFrom, linesFrom]
    split <;> simp
  | cons c text ih =>
    rw [linesFrom, linesFrom]
    split
    · rw [ih, ih [endedLine current], List.reverse_cons, List.append_assoc, List.reverse_singleton]
    · exact ih done (c :: current)

theorem readFrom_cons_congr {line line' : List Char} {rest rest' : List (List Char)} {n : Nat}
    {done : Source} (hline : Statement.read line = Statement.read line')
    (hrest : ∀ done, Source.readFrom (n + 1) done rest = Source.readFrom (n + 1) done rest') :
    Source.readFrom n done (line :: rest) = Source.readFrom n done (line' :: rest') := by
  rw [Source.readFrom, Source.readFrom, hline]
  simp only [hrest]

/-- A source is read line by line; an empty line at its end is none, and says nothing. -/
theorem readFrom_lines_sourceOf {lines : List (List Char)} (h : ∀ line ∈ lines, '\n' ∉ line)
    (n : Nat) (done : Source) :
    Source.readFrom n done (Text.lines (sourceOf lines)) = Source.readFrom n done lines := by
  induction lines generalizing n done with
  | nil => rfl
  | cons line lines ih =>
    obtain ⟨hline, hlines⟩ := List.forall_mem_cons.mp h
    cases lines with
    | nil =>
      rw [sourceOf, List.intercalate_singleton]
      by_cases hempty : line = []
      · subst hempty
        rfl
      · rw [lines_of_notMem hline hempty]
    | cons next lines =>
      have hcut : Text.lines (sourceOf (line :: next :: lines)) =
          endedLine line.reverse :: Text.lines (sourceOf (next :: lines)) := by
        rw [sourceOf, List.intercalate_cons_cons, List.append_assoc, List.singleton_append,
          Text.lines, linesFrom_append hline, linesFrom_done, List.append_nil]
        rfl
      rw [hcut]
      exact readFrom_cons_congr (read_endedLine line) fun done => ih hlines (n + 1) done

def NumberedAlike (x y : Nat × Statement) : Prop :=
  x.1 = y.1 ∧ x.2.Alike y.2

/-- Sources with statements that are alike and faults in the same lines. -/
structure Source.Alike (a b : Source) : Prop where
  statements : List.Forall₂ NumberedAlike a.statements b.statements
  lines_eq : a.diagnostics.map (·.line) = b.diagnostics.map (·.line)

theorem Source.Alike.reversed {a b : Source} (h : a.Alike b) : a.reversed.Alike b.reversed where
  statements := List.forall₂_reverse_iff.mpr h.statements
  lines_eq := by
    rw [Source.reversed, Source.reversed, List.map_reverse, List.map_reverse, h.lines_eq]

theorem readFrom_alike {lines lines' : List (List Char)} (h : List.Forall₂ SameLine lines lines')
    {n : Nat} {done done' : Source} (hdone : done.Alike done') :
    (Source.readFrom n done lines).Alike (Source.readFrom n done' lines') := by
  induction h generalizing n done done' with
  | nil => exact hdone.reversed
  | cons hline hlines ih =>
    have hread := hline.read
    rw [Source.readFrom, Source.readFrom]
    generalize Statement.read _ = x at hread ⊢
    generalize Statement.read _ = y at hread ⊢
    cases hread with
    | error e e' => exact ih ⟨hdone.statements, congrArg (n :: ·) hdone.lines_eq⟩
    | ok h =>
      cases h with
      | none => exact ih hdone
      | @some st st' hst =>
        have hmore : Source.Alike { done with statements := (n, st) :: done.statements }
            { done' with statements := (n, st') :: done'.statements } :=
          ⟨.cons ⟨rfl, hst⟩ hdone.statements, hdone.lines_eq⟩
        dsimp only
        rw [hst.operation_eq]
        split
        · exact hmore.reversed
        · exact ih hmore

theorem SameSource.read (h : SameSource s t) : (Source.read s).Alike (Source.read t) := by
  obtain ⟨lines, lines', rfl, rfl, hlines, hfeed, hfeed'⟩ := h
  rw [Source.read, Source.read, readFrom_lines_sourceOf hfeed, readFrom_lines_sourceOf hfeed']
  exact readFrom_alike hlines ⟨.nil, rfl⟩

/-! ## Operands -/

theorem Agree.refl {α : Type} (x : Except Fault α) : Agree Eq x x := by
  cases x with
  | ok a => exact .ok rfl
  | error e => exact .error e e

theorem Agree.eq_or_errors {α : Type} {x y : Except Fault α} (h : Agree Eq x y) :
    x = y ∨ ∃ e e', x = .error e ∧ y = .error e' := by
  cases h with
  | ok h => exact .inl (congrArg _ h)
  | error e e' => exact .inr ⟨e, e', rfl, rfl⟩

/-- Results that agree are taken further to results that agree. -/
theorem Agree.bind_eq {α β : Type} {x y : Except Fault α} (h : Agree Eq x y)
    (f : α → Except Fault β) : Agree Eq (x >>= f) (y >>= f) :=
  h.bind fun _ _ hab => hab ▸ .refl _

theorem evaluate_agree (h : Respelled none s t) :
    Agree Eq (evaluate symbols here s) (evaluate symbols here t) := by
  cases hs : evaluate symbols here s with
  | ok v =>
    rw [h.evaluate_eq_ok_iff.mp hs]
    exact .ok rfl
  | error e =>
    cases ht : evaluate symbols here t with
    | ok v =>
      rw [h.evaluate_eq_ok_iff.mpr ht] at hs
      cases hs
    | error e' => exact .error e e'

theorem byteValue_agree (h : Respelled none s t) :
    Agree Eq (byteValue symbols here s) (byteValue symbols here t) := by
  rw [byteValue, byteValue]
  refine (evaluate_agree h).bind ?_
  rintro v _ rfl
  split
  · exact .ok rfl
  · exact .error _ _

theorem wordValue_agree (h : Respelled none s t) :
    Agree Eq (wordValue symbols here s) (wordValue symbols here t) := by
  rw [wordValue, wordValue]
  refine (evaluate_agree h).bind ?_
  rintro v _ rfl
  split
  · exact .ok rfl
  · exact .error _ _

theorem dataCode_agree (h : Respelled none s t) :
    Agree Eq (dataCode symbols here s) (dataCode symbols here t) := by
  rw [dataCode, dataCode, h.quoted?_eq]
  refine (Agree.refl (quoted? t)).bind ?_
  rintro text _ rfl
  cases text with
  | some text => exact .refl _
  | none => exact (byteValue_agree h).bind_eq _

theorem single_agree (h : List.Forall₂ (Respelled none) operands operands') (op : Operation) :
    Agree (Respelled none) (single op operands) (single op operands') := by
  cases h with
  | nil => exact .error _ _
  | cons hfirst hrest =>
    cases hrest with
    | nil => exact .ok hfirst
    | cons => exact .error _ _

/-- The value of a directive with one operand. -/
theorem single_wordValue_agree (h : List.Forall₂ (Respelled none) operands operands')
    (op : Operation) :
    Agree Eq (single op operands >>= wordValue symbols here)
      (single op operands' >>= wordValue symbols here) :=
  (single_agree h op).bind fun _ _ => wordValue_agree

theorem isRegister_eq (h : Respelled none s t) : isRegister s = isRegister t := by
  rw [isRegister, isRegister, h.upper_eq]

theorem encodeOperand_agree (h : Respelled none s t) (form : OperandForm) :
    Agree Eq (encodeOperand symbols here form s) (encodeOperand symbols here form t) := by
  cases form with
  | named register =>
    rw [encodeOperand, encodeOperand, h.upper_eq]
    exact .refl _
  | vector n =>
    rw [encodeOperand, encodeOperand, isRegister_eq h]
    split
    · exact .ok rfl
    · exact (evaluate_agree h).bind_eq _
  | data8 =>
    rw [encodeOperand, encodeOperand, isRegister_eq h]
    split
    · exact .ok rfl
    · exact (byteValue_agree h).bind_eq _
  | data16 | address =>
    rw [encodeOperand, encodeOperand, isRegister_eq h]
    split
    · exact .ok rfl
    · exact (wordValue_agree h).bind_eq _

theorem encodeOperands_agree (h : List.Forall₂ (Respelled none) operands operands')
    (forms : List OperandForm) :
    Agree Eq (encodeOperands symbols here forms operands)
      (encodeOperands symbols here forms operands') := by
  induction h generalizing forms with
  | nil => exact .refl _
  | cons hfirst hrest ih =>
    cases forms with
    | nil => exact .refl _
    | cons form forms =>
      rw [encodeOperands, encodeOperands]
      refine (encodeOperand_agree hfirst form).bind ?_
      rintro front _ rfl
      cases front with
      | none => exact .refl _
      | some front => exact (ih forms).bind_eq _

theorem encodeWith_agree (h : List.Forall₂ (Respelled none) operands operands') (opcode : UInt8) :
    Agree Eq (encodeWith symbols here operands opcode)
      (encodeWith symbols here operands' opcode) := by
  rw [encodeWith, encodeWith, h.length_eq]
  split
  · exact (encodeOperands_agree h _).bind_eq _
  · exact .refl _

theorem encodeFirst_agree (h : List.Forall₂ (Respelled none) operands operands')
    (mnemonic : String) (opcodes : List UInt8) :
    Agree Eq (encodeFirst symbols here mnemonic operands opcodes)
      (encodeFirst symbols here mnemonic operands' opcodes) := by
  induction opcodes with
  | nil => exact .refl _
  | cons opcode opcodes ih =>
    rw [encodeFirst, encodeFirst]
    refine (encodeWith_agree h opcode).bind ?_
    rintro code _ rfl
    cases code with
    | none => exact ih
    | some code => exact .refl _

theorem encode_agree (h : List.Forall₂ (Respelled none) operands operands') (mnemonic : String) :
    Agree Eq (encode symbols here mnemonic operands) (encode symbols here mnemonic operands') := by
  rw [encode, encode]
  split
  · exact .refl _
  · exact encodeFirst_agree h mnemonic _

/-! ## One statement -/

/-- Outcomes with the same state, and a fault in both or in neither. -/
def SameOutcome {σ : Type} (x y : Outcome σ) : Prop :=
  x.1 = y.1 ∧ x.2.isSome = y.2.isSome

theorem SameOutcome.refl {σ : Type} (x : Outcome σ) : SameOutcome x x :=
  ⟨rfl, rfl⟩

theorem Sizing.bytes_respelled (h : List.Forall₂ (Respelled none) operands operands')
    (s : Sizing) : s.bytes operands = s.bytes operands' := by
  induction h generalizing s with
  | nil => rfl
  | cons hfirst hrest ih =>
    rw [Sizing.bytes, Sizing.bytes, hfirst.quoted?_eq]
    simp only [ih]

theorem Sizing.words_respelled (h : List.Forall₂ (Respelled none) operands operands')
    (s : Sizing) : s.words operands = s.words operands' := by
  induction h generalizing s with
  | nil => rfl
  | cons hfirst hrest ih =>
    rw [Sizing.words, Sizing.words]
    simp only [ih]

theorem Sizing.operation_sameOutcome (h : st.Alike st') (hop : st.operation = some op)
    (s : Sizing) : SameOutcome (s.operation here st op) (s.operation here st' op) := by
  rcases h.operands with hoperands | ⟨m, hm, hnone⟩
  case inr =>
    obtain rfl := Option.some.inj (hop.symm.trans hm)
    exact .refl _
  case inl =>
    have hvalue : Agree Eq (single op st.operands >>= wordValue s.symbols here)
        (single op st'.operands >>= wordValue s.symbols here) :=
      single_wordValue_agree hoperands op
    have hempty : st.operands.isEmpty = st'.operands.isEmpty := by
      rw [Bool.eq_iff_iff, List.isEmpty_iff_length_eq_zero, List.isEmpty_iff_length_eq_zero,
        hoperands.length_eq]
    cases op with
    | finish => exact .refl _
    | instruction m => exact .refl _
    | equate =>
      rw [operation, operation, ← h.label_eq]
      split
      · exact .refl _
      · rcases hvalue.eq_or_errors with heq | ⟨e, e', hx, hy⟩
        · rw [heq]
          exact .refl _
        · rw [hx, hy]
          exact ⟨rfl, rfl⟩
    | origin =>
      rw [operation, operation]
      rcases (hvalue.bind_eq s.cursor.moveTo).eq_or_errors with heq | ⟨e, e', hx, hy⟩
      · rw [heq]
        exact .refl _
      · rw [hx, hy]
        exact ⟨rfl, rfl⟩
    | bytes =>
      rw [operation, operation, hempty, bytes_respelled hoperands]
      exact .refl _
    | words =>
      rw [operation, operation, hempty, words_respelled hoperands]
      exact .refl _
    | space =>
      rw [operation, operation]
      rcases hvalue.eq_or_errors with heq | ⟨e, e', hx, hy⟩
      · rw [heq]
        exact .refl _
      · rw [hx, hy]
        exact ⟨rfl, rfl⟩

/-- The sizing pass treats statements that are alike in the same way. -/
theorem Sizing.statement_sameOutcome (h : st.Alike st') (s : Sizing) :
    SameOutcome (s.statement st) (s.statement st') := by
  rw [statement, statement, ← h.label_eq, ← h.operation_eq]
  split
  case h_1 => exact .refl _
  case h_2 =>
    split
    case h_1 => exact .refl _
    case h_2 op hop => exact operation_sameOutcome h hop _

theorem Emission.bytes_sameOutcome (h : List.Forall₂ (Respelled none) operands operands')
    (s : Emission) :
    SameOutcome (s.bytes symbols here operands) (s.bytes symbols here operands') := by
  induction h generalizing s with
  | nil => exact .refl _
  | @cons operand operand' rest rest' hfirst hrest ih =>
    have hcode : Agree Eq (dataCode symbols here operand) (dataCode symbols here operand') :=
      dataCode_agree hfirst
    rw [Emission.bytes_cons, Emission.bytes_cons]
    rcases hcode.eq_or_errors with heq | ⟨e, e', hx, hy⟩
    · rw [heq]
      split
      · exact .refl _
      · split
        · exact ih _
        · exact .refl _
    · rw [hx, hy]
      exact ⟨rfl, rfl⟩

theorem Emission.words_sameOutcome (h : List.Forall₂ (Respelled none) operands operands')
    (s : Emission) :
    SameOutcome (s.words symbols here operands) (s.words symbols here operands') := by
  induction h generalizing s with
  | nil => exact .refl _
  | @cons operand operand' rest rest' hfirst hrest ih =>
    have hvalue : Agree Eq (wordValue symbols here operand) (wordValue symbols here operand') :=
      wordValue_agree hfirst
    rw [Emission.words, Emission.words]
    rcases hvalue.eq_or_errors with heq | ⟨e, e', hx, hy⟩
    · rw [heq]
      split
      · exact .refl _
      · split
        · exact ih _
        · exact .refl _
    · rw [hx, hy]
      exact ⟨rfl, rfl⟩

theorem Emission.operation_sameOutcome (h : st.Alike st') (hop : st.operation = some op)
    (s : Emission) :
    SameOutcome (s.operation symbols here st op) (s.operation symbols here st' op) := by
  rcases h.operands with hoperands | ⟨m, hm, hnone⟩
  case inr =>
    obtain rfl := Option.some.inj (hop.symm.trans hm)
    rw [operation, operation, encode, encode, hnone]
    exact .refl _
  case inl =>
    have hvalue : Agree Eq (single op st.operands >>= wordValue symbols here)
        (single op st'.operands >>= wordValue symbols here) :=
      single_wordValue_agree hoperands op
    have hempty : st.operands.isEmpty = st'.operands.isEmpty := by
      rw [Bool.eq_iff_iff, List.isEmpty_iff_length_eq_zero, List.isEmpty_iff_length_eq_zero,
        hoperands.length_eq]
    cases op with
    | finish => exact .refl _
    | instruction m =>
      have hcode : Agree Eq (encode symbols here m st.operands)
          (encode symbols here m st'.operands) :=
        encode_agree hoperands m
      rw [operation, operation]
      rcases hcode.eq_or_errors with heq | ⟨e, e', hx, hy⟩
      · rw [heq]
        exact .refl _
      · rw [hx, hy]
        exact ⟨rfl, rfl⟩
    | equate =>
      rw [operation, operation, h.label_eq]
      exact .refl _
    | origin =>
      rw [operation, operation]
      rcases (hvalue.bind_eq s.cursor.moveTo).eq_or_errors with heq | ⟨e, e', hx, hy⟩
      · rw [heq]
        exact .refl _
      · rw [hx, hy]
        exact ⟨rfl, rfl⟩
    | bytes =>
      rw [operation, operation, hempty]
      split
      · exact .refl _
      · exact bytes_sameOutcome hoperands s
    | words =>
      rw [operation, operation, hempty]
      split
      · exact .refl _
      · exact words_sameOutcome hoperands s
    | space =>
      rw [operation, operation]
      rcases hvalue.eq_or_errors with heq | ⟨e, e', hx, hy⟩
      · rw [heq]
        exact .refl _
      · rw [hx, hy]
        exact ⟨rfl, rfl⟩

/-- The emitting pass treats statements that are alike in the same way. -/
theorem Emission.statement_sameOutcome (symbols : Symbols) (h : st.Alike st') (s : Emission) :
    SameOutcome (Emission.statement symbols s st) (Emission.statement symbols s st') := by
  rw [statement, statement, ← h.operation_eq]
  split
  case h_1 => exact .refl _
  case h_2 op hop => exact operation_sameOutcome h hop s

/-! ## The passes -/

/-- A pass goes through the same states, and finds the same lines wrong. -/
theorem pass_alike {σ : Type} {run : σ → Statement → Outcome σ}
    (hrun : ∀ st st', st.Alike st' → ∀ s, SameOutcome (run s st) (run s st'))
    {statements statements' : List (Nat × Statement)}
    (h : List.Forall₂ NumberedAlike statements statements') (s : σ)
    {good good' : List (Nat × Statement)} (hgood : List.Forall₂ NumberedAlike good good')
    {bad bad' : List Diagnostic} (hbad : bad.map (·.line) = bad'.map (·.line)) :
    (pass run s good bad statements).1 = (pass run s good' bad' statements').1 ∧
      List.Forall₂ NumberedAlike (pass run s good bad statements).2.1
        (pass run s good' bad' statements').2.1 ∧
      (pass run s good bad statements).2.2.map (·.line) =
        (pass run s good' bad' statements').2.2.map (·.line) := by
  induction h generalizing s good good' bad bad' with
  | nil =>
    refine ⟨rfl, List.forall₂_reverse_iff.mpr hgood, ?_⟩
    rw [pass, pass, List.map_reverse, List.map_reverse, hbad]
  | @cons x y rest rest' hfirst hrest ih =>
    obtain ⟨line, st⟩ := x
    obtain ⟨line', st'⟩ := y
    obtain ⟨rfl, hst⟩ : line = line' ∧ st.Alike st' := hfirst
    have hsame := hrun st st' hst s
    rw [pass, pass]
    generalize run s st = x at hsame ⊢
    generalize run s st' = y at hsame ⊢
    obtain ⟨after, fault⟩ := x
    obtain ⟨after', fault'⟩ := y
    obtain ⟨rfl, hfault⟩ : after = after' ∧ fault.isSome = fault'.isSome := hsame
    cases fault with
    | none =>
      cases fault' with
      | some e => cases hfault
      | none =>
        have hnumbered : NumberedAlike (line, st) (line, st') := ⟨rfl, hst⟩
        exact ih after (.cons hnumbered hgood) hbad
    | some e =>
      cases fault' with
      | none => cases hfault
      | some e' => exact ih after hgood (congrArg (line :: ·) hbad)

/-- In which lines something is reported depends only on the lines where it was found. -/
theorem lines_mergeSort_congr {a b : List Diagnostic} (h : a.map (·.line) = b.map (·.line)) :
    (a.mergeSort fun x y => x.line ≤ y.line).map (·.line) =
      (b.mergeSort fun x y => x.line ≤ y.line).map (·.line) := by
  have hsort (l : List Diagnostic) : (l.mergeSort fun x y => x.line ≤ y.line).map (·.line) =
      (l.map (·.line)).mergeSort fun m n => m ≤ n :=
    List.map_mergeSort fun _ _ _ _ => rfl
  rw [hsort, hsort, h]

end Assembler

namespace Assembly

open Assembler

/-- Neither the case of letters outside quotes nor comments change what a source assembles to. -/
theorem ofText_sameSource {text text' : List Char} (h : SameSource text text') (origin : UInt16) :
    (ofText text origin).origin = (ofText text' origin).origin ∧
      (ofText text origin).image = (ofText text' origin).image ∧
      (ofText text origin).symbols = (ofText text' origin).symbols ∧
      (ofText text origin).diagnostics.map (·.line) =
        (ofText text' origin).diagnostics.map (·.line) := by
  have hsource := h.read
  have hnothing : ([] : List Diagnostic).map (·.line) = ([] : List Diagnostic).map (·.line) := rfl
  obtain ⟨hsized, hgood, hsizes⟩ := pass_alike
    (fun st st' hst => Sizing.statement_sameOutcome hst) hsource.statements
    ⟨.start origin, .empty⟩ .nil hnothing
  obtain ⟨hemitted, -, hcodes⟩ := pass_alike
    (fun st st' hst => Emission.statement_sameOutcome
      (pass Sizing.statement ⟨.start origin, .empty⟩ [] [] (Source.read text).statements).1.symbols
      hst) hgood ⟨.start origin, #[]⟩ .nil hnothing
  have hlines := hsource.lines_eq
  simp only [ofText]
  generalize Source.read text = source at *
  generalize Source.read text' = source' at *
  rw [← hsized]
  generalize pass Sizing.statement ⟨.start origin, .empty⟩ [] [] source.statements = sized at *
  generalize pass Sizing.statement ⟨.start origin, .empty⟩ [] [] source'.statements = sized' at *
  generalize pass (Emission.statement sized.1.symbols) ⟨.start origin, #[]⟩ [] [] sized.2.1 =
    emitted at *
  generalize pass (Emission.statement sized.1.symbols) ⟨.start origin, #[]⟩ [] [] sized'.2.1 =
    emitted' at *
  have hreported := lines_mergeSort_congr
    (a := source.diagnostics ++ sized.2.2 ++ emitted.2.2)
    (b := source'.diagnostics ++ sized'.2.2 ++ emitted'.2.2)
    (by simp only [List.map_append, hlines, hsizes, hcodes])
  have hempty := congrArg List.isEmpty hreported
  rw [List.isEmpty_map, List.isEmpty_map] at hempty
  exact ⟨by rw [hemitted], by rw [hemitted, hempty], rfl, hreported⟩

/-- A loop in small letters, with comments. -/
def smallLoop : List (List Char) :=
  ["start: mvi a,'x' ; it's one".toList, " jmp start;".toList]

/-- The same loop in capital letters, with other comments. -/
def capitalLoop : List (List Char) :=
  ["START: MVI A,'x'".toList, " JMP Start ; again".toList]

theorem ofText_sameSource_loop :
    SameSource (sourceOf smallLoop) (sourceOf capitalLoop) ∧
      (ofText (sourceOf smallLoop) 0x0200).image = (ofText (sourceOf capitalLoop) 0x0200).image ∧
      (ofText (sourceOf smallLoop) 0x0200).diagnostics.map (·.line) =
        (ofText (sourceOf capitalLoop) 0x0200).diagnostics.map (·.line) := by
  have hnone : Blank [] := List.forall_mem_nil _
  have hspace : Blank [' '] := List.forall_mem_singleton.mpr (by decide)
  have hfirst : SameLine "start: mvi a,'x' ; it's one".toList "START: MVI A,'x'".toList :=
    .commented (s := "start: mvi a,'x'".toList) (t := "START: MVI A,'x'".toList)
      (by decide +kernel) (by decide +kernel) (.comment hspace _) (.blanks hnone)
  have hsecond : SameLine " jmp start;".toList " JMP Start ; again".toList :=
    .commented (s := " jmp start".toList) (t := " JMP Start".toList)
      (by decide +kernel) (by decide +kernel) (.comment hnone _) (.comment hspace _)
  have hsame : SameSource (sourceOf smallLoop) (sourceOf capitalLoop) :=
    ⟨_, _, rfl, rfl, .cons hfirst (.cons hsecond .nil), by decide +kernel, by decide +kernel⟩
  obtain ⟨-, himage, -, hlines⟩ := ofText_sameSource hsame 0x0200
  exact ⟨hsame, himage, hlines⟩

end Assembly

end Cpm80
