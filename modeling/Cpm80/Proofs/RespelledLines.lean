import Cpm80.Proofs.LetterCase
import Cpm80.Proofs.LineParts
import Cpm80.Proofs.Listings
import Mathlib.Data.List.Forall2

/-!
# Lines in either case

Two spellings of a line are read as statements that neither pass tells apart: the label and the
operation are the same, and the operands are spelled alike. One thing has to be kept apart. The
scanners begin anew at each part of a line, so a quote in the name of an operation hides a string
from one scanner that another one sees. But then there is no such operation, and its operands are
never looked at.
-/
namespace Cpm80

open Text

namespace Assembler

variable {quote : Option Char} {q c d : Char} {s t u : List Char}

/-! ## Strings -/

/-- Within quotes there is one spelling. -/
theorem Respelled.cases_inside (h : Respelled (some q) s t) :
    (q ∉ s ∧ s = t) ∨ ∃ body rest rest', q ∉ body ∧ s = body ++ q :: rest ∧
      t = body ++ q :: rest' ∧ Respelled none rest rest' := by
  induction s generalizing t with
  | nil =>
    cases h
    exact .inl ⟨List.not_mem_nil, rfl⟩
  | cons c s ih =>
    cases h with
    | inside h =>
      by_cases hc : c = q
      · subst hc
        rw [quoteAfter, if_pos rfl] at h
        exact .inr ⟨[], s, _, List.not_mem_nil, rfl, rfl, h⟩
      · rw [quoteAfter, if_neg hc] at h
        rcases ih h with ⟨hnone, rfl⟩ | ⟨body, rest, rest', hbody, rfl, rfl, hrest⟩
        · exact .inl ⟨List.not_mem_cons_of_ne_of_not_mem (Ne.symm hc) hnone, rfl⟩
        · exact .inr ⟨c :: body, rest, rest',
            List.not_mem_cons_of_ne_of_not_mem (Ne.symm hc) hbody, rfl, rfl, hrest⟩

theorem Respelled.quoted?_eq (h : Respelled none s t) : quoted? s = quoted? t := by
  cases h with
  | nil => rfl
  | @outside c d s t hcd h =>
    cases hquote : isQuote c with
    | false =>
      have hquote' : isQuote d = false := isQuote_of_toUpper_eq hcd ▸ hquote
      rw [quoted?, quoted?, hquote, hquote']
      rfl
    | true =>
      have hsame : c = d := by
        rw [isQuote, Bool.or_eq_true, decide_eq_true_eq, decide_eq_true_eq] at hquote
        rcases hquote with rfl | rfl
        · exact ((eq_iff_of_toUpper_eq (by decide) hcd).mp rfl).symm
        · exact ((eq_iff_of_toUpper_eq (by decide) hcd).mp rfl).symm
      subst hsame
      rw [quoteAfter_self hquote] at h
      rcases h.cases_inside with ⟨hnone, rfl⟩ | ⟨body, rest, rest', hbody, rfl, rfl, hrest⟩
      · rfl
      · rw [quoted?_closed hquote hbody, quoted?_closed hquote hbody]
        simp only [eq_nil_iff_of_upper_eq hrest.upper_eq]

/-! ## Comments -/

theorem Respelled.withoutComment (h : Respelled none s t) :
    Respelled none (withoutComment s) (withoutComment t) := by
  obtain ⟨rest, hparts, houtside, hrest⟩ := exists_withoutComment s
  rw [hparts] at h
  obtain ⟨front, back, rfl, hfront, hback⟩ := h.exists_append
  have hmark : Outside (· ≠ ';') none front := hfront.outside_of (caseBlind_ne (by decide)) houtside
  rcases hrest with rfl | ⟨hclosed, comment, rfl⟩
  · obtain rfl := hback.eq_nil
    rw [List.append_nil, withoutComment_of_outside hmark]
    exact hfront
  · rw [hclosed] at hback
    obtain ⟨comment', rfl, -⟩ := hback.exists_mark (by decide)
    rw [withoutComment_append ⟨hmark, hfront.quoteBehind_eq ▸ hclosed⟩]
    exact hfront

/-- What may stand behind the statement of a line: blanks, and a comment behind them. -/
inductive IsTail : List Char → Prop
  | blanks {blanks : List Char} (h : Blank blanks) : IsTail blanks
  | comment {blanks : List Char} (h : Blank blanks) (text : List Char) :
    IsTail (blanks ++ ';' :: text)

/-- Lines that say the same: they are spelled alike, or so are the texts in front of their
comments, and all quotes are closed there. -/
inductive SameLine : List Char → List Char → Prop
  | respelled {s t : List Char} (h : Respelled none s t) : SameLine s t
  | commented {s t tail tail' : List Char} (h : Respelled none s t)
    (hclosed : quoteBehind none s = none) (htail : IsTail tail) (htail' : IsTail tail') :
    SameLine (s ++ tail) (t ++ tail')

theorem statementText_append_tail (hclosed : quoteBehind none s = none) {tail : List Char}
    (h : IsTail tail) : statementText (s ++ tail) = statementText s := by
  cases h with
  | blanks h => exact statementText_append_blank h s
  | @comment blanks h text =>
    have hboth : quoteBehind none (s ++ blanks) = none := by
      rw [quoteBehind_append, hclosed]
      exact (uncut_of_blank h).closed
    rw [← List.append_assoc, statementText_append_comment hboth, statementText_append_blank h]

theorem SameLine.statementText (h : SameLine s t) :
    Respelled none (statementText s) (statementText t) := by
  cases h with
  | respelled h => exact h.withoutComment.trim
  | commented h hclosed htail htail' =>
    rw [statementText_append_tail hclosed htail,
      statementText_append_tail (h.quoteBehind_eq ▸ hclosed) htail']
    exact h.withoutComment.trim

/-! ## Labels and words -/

theorem caseBlind_isAlpha : CaseBlind (·.isAlpha = true) := by
  intro c d hcd hc
  have hnat := congrArg Char.toNat hcd
  rw [toNat_toUpper, toNat_toUpper] at hnat
  rw [isAlpha_iff] at hc ⊢
  grind

theorem caseBlind_isSymbolStart : CaseBlind (isSymbolStart · = true) := by
  intro c d hcd hc
  simp only [isSymbolStart, Bool.or_eq_true, decide_eq_true_eq] at hc ⊢
  rcases hc with ((halpha | hmark) | hmark) | hmark
  · exact .inl (.inl (.inl (caseBlind_isAlpha c d hcd halpha)))
  · exact .inl (.inl (.inr ((eq_iff_of_toUpper_eq (by decide) hcd).mp hmark)))
  · exact .inl (.inr ((eq_iff_of_toUpper_eq (by decide) hcd).mp hmark))
  · exact .inr ((eq_iff_of_toUpper_eq (by decide) hcd).mp hmark)

theorem caseBlind_isSymbolChar : CaseBlind (isSymbolChar · = true) := by
  intro c d hcd hc
  have hstart := caseBlind_isSymbolStart c d hcd
  simp only [isSymbolStart, isSymbolChar, Char.isAlphanum, Bool.or_eq_true] at hstart hc ⊢
  rw [isDigit_of_toUpper_eq hcd] at hc
  grind

theorem isIdentifier_of_upper_eq (h : upper s = upper t) (hs : isIdentifier s = true) :
    isIdentifier t = true := by
  cases s with
  | nil => cases hs
  | cons c s =>
    cases t with
    | nil => cases h
    | cons d t =>
      obtain ⟨hcd, hrest⟩ := List.cons.inj h
      rw [isIdentifier, Bool.and_eq_true, List.all_eq_true] at hs ⊢
      exact ⟨caseBlind_isSymbolStart c d hcd hs.1,
        forall_of_upper_eq caseBlind_isSymbolChar hrest hs.2⟩

/-- Two results that agree: faults, whatever they say, or values in a relation. -/
inductive Agree {α : Type} (R : α → α → Prop) : Except Fault α → Except Fault α → Prop
  | ok {a b : α} (h : R a b) : Agree R (.ok a) (.ok b)
  | error (e e' : Fault) : Agree R (.error e) (.error e')

theorem Agree.bind {α β : Type} {R : α → α → Prop} {S : β → β → Prop} {x y : Except Fault α}
    {f g : α → Except Fault β} (h : Agree R x y) (hfg : ∀ a b, R a b → Agree S (f a) (g b)) :
    Agree S (x >>= f) (y >>= g) := by
  cases h with
  | ok h => exact hfg _ _ h
  | error e e' => exact .error e e'

theorem labelOf_of_upper_eq (h : upper s = upper t) : Agree Eq (labelOf s) (labelOf t) := by
  have hsame : isIdentifier s = isIdentifier t := by
    rw [Bool.eq_iff_iff]
    exact ⟨isIdentifier_of_upper_eq h, isIdentifier_of_upper_eq h.symm⟩
  rw [labelOf, labelOf, hsame, h]
  split
  · exact .ok rfl
  · exact .error _ _

theorem any_of_upper_eq (h : upper s = upper t) :
    (s.any fun c => isBlank c || isQuote c) = t.any fun c => isBlank c || isQuote c := by
  have hblind : CaseBlind fun c => ¬(isBlank c || isQuote c) = true := by
    intro c d hcd hc
    rwa [← isBlank_of_toUpper_eq hcd, ← isQuote_of_toUpper_eq hcd]
  rw [Bool.eq_iff_iff, List.any_eq_true, List.any_eq_true, ← not_iff_not]
  simp only [not_exists, not_and]
  exact ⟨forall_of_upper_eq hblind h, forall_of_upper_eq hblind h.symm⟩

/-- A label is cut off in both spellings or in neither. -/
theorem Respelled.labelPart? (h : Respelled none s t) :
    (labelPart? s = none ∧ labelPart? t = none) ∨ ∃ name name' rest rest',
      labelPart? s = some (name, rest) ∧ labelPart? t = some (name', rest') ∧
        upper name = upper name' ∧ Respelled none rest rest' := by
  by_cases hcolon : ':' ∈ s
  · obtain ⟨name, rest, rfl, hname⟩ := List.eq_append_cons_of_mem hcolon
    obtain ⟨name', back, rfl, hfront, hback⟩ := h.exists_append
    have hname' : ':' ∉ name' := by
      rw [← mem_upper_iff (by decide), ← hfront.upper_eq, mem_upper_iff (by decide)]
      exact hname
    obtain ⟨rest', rfl, hrest⟩ := hback.exists_mark (by decide)
    rw [labelPart?_colon hname, labelPart?_colon hname', any_of_upper_eq hfront.upper_eq]
    split
    case isTrue => exact .inl ⟨rfl, rfl⟩
    case isFalse hclean =>
      have hplain : ∀ c ∈ name', isQuote c = false := by
        intro c hc
        rw [Bool.eq_false_iff]
        exact fun hquote => hclean (List.any_eq_true.mpr ⟨c, hc, by rw [hquote, Bool.or_true]⟩)
      have hclosed : quoteBehind none name = none := by
        rw [hfront.quoteBehind_eq]
        exact quoteBehind_of_forall hplain
      rw [hclosed] at hrest
      exact .inr ⟨name, name', rest, rest', rfl, rfl, hfront.upper_eq, hrest⟩
  · refine .inl ⟨labelPart?_of_notMem hcolon, labelPart?_of_notMem ?_⟩
    rw [← mem_upper_iff (by decide), ← h.upper_eq, mem_upper_iff (by decide)]
    exact hcolon

theorem splitWord_upper (s : List Char) :
    splitWord (upper s) = (upper (splitWord s).1, upper (splitWord s).2) := by
  have hblank : isBlank ∘ Char.toUpper = isBlank := funext isBlank_toUpper
  have hword : (fun c => !isBlank c) ∘ Char.toUpper = fun c => !isBlank c :=
    funext fun c => congrArg not (isBlank_toUpper c)
  simp only [splitWord, List.span_eq_takeWhile_dropWhile, trimStart, upper, List.dropWhile_map,
    List.takeWhile_map, hblank, hword]

theorem upper_splitWord_of_upper_eq (h : upper s = upper t) :
    upper (splitWord s).1 = upper (splitWord t).1 := by
  have hwords := congrArg (fun s => (splitWord s).1) h
  simpa only [splitWord_upper] using hwords

/-- The first word and the text behind it are spelled alike. -/
theorem Respelled.splitWord (h : Respelled none s t) :
    Respelled none (splitWord s).1 (splitWord t).1 ∧
      Respelled (quoteBehind none (splitWord s).1) (splitWord s).2 (splitWord t).2 := by
  obtain ⟨before, hbefore, hparts, hword, hrest, hnone⟩ := exists_splitWord s
  rw [hparts] at h
  obtain ⟨before', back, rfl, hfront, h⟩ := h.exists_append
  rw [(uncut_of_blank hbefore).closed] at h
  obtain ⟨word', rest', rfl, hword', hrest'⟩ := h.exists_append
  rw [splitWord_blank_append (hbefore.of_upper_eq hfront.upper_eq)]
  by_cases hempty : (Text.splitWord s).1 = []
  · rw [hempty] at hword' hrest' ⊢
    rw [hnone hempty] at hrest' ⊢
    obtain rfl := hword'.eq_nil
    obtain rfl := hrest'.eq_nil
    exact ⟨.nil, .nil⟩
  · have hsome : word' ≠ [] := fun h => hempty ((eq_nil_iff_of_upper_eq hword'.upper_eq).mpr h)
    have hstop : ∀ d ∈ rest'.head?, isBlank d = true := by
      intro d hd
      have hheads : (splitWord s).2.head?.map Char.toUpper = rest'.head?.map Char.toUpper := by
        rw [← List.head?_map, ← List.head?_map]
        exact congrArg List.head? hrest'.upper_eq
      rw [hd, Option.map_some] at hheads
      obtain ⟨c, hc, hcd⟩ := Option.map_eq_some_iff.mp hheads
      rw [← isBlank_of_toUpper_eq hcd]
      exact hrest c hc
    rw [splitWord_append (hword.of_upper_eq hword'.upper_eq) hsome hstop]
    exact ⟨hword', hrest'⟩

/-! ## Operands -/

theorem Respelled.splitOperandsFrom {current current' : List Char} {done done' : List (List Char)}
    (h : Respelled quote s t) (hcurrent : Respelled none current.reverse current'.reverse)
    (hquote : quoteBehind none current.reverse = quote)
    (hdone : List.Forall₂ (Respelled none) done done') :
    List.Forall₂ (Respelled none) (splitOperandsFrom quote current done s)
      (splitOperandsFrom quote current' done' t) := by
  induction h generalizing current current' done done' with
  | nil =>
    rw [Assembler.splitOperandsFrom, Assembler.splitOperandsFrom, List.forall₂_reverse_iff]
    exact .cons hcurrent.trim hdone
  | @outside c d s t hcd h ih =>
    rw [Assembler.splitOperandsFrom, Assembler.splitOperandsFrom]
    have hcomma : c = ',' ↔ d = ',' := eq_iff_of_toUpper_eq (by decide) hcd
    simp only [← hcomma, ← quoteAfter_of_toUpper_eq hcd]
    split
    case isTrue hboth =>
      obtain ⟨-, rfl⟩ := hboth
      have hstart : Respelled none ([] : List Char).reverse ([] : List Char).reverse := .nil
      exact ih hstart rfl (.cons hcurrent.trim hdone)
    case isFalse hother =>
      refine ih ?_ ?_ hdone
      · rw [List.reverse_cons, List.reverse_cons]
        refine hcurrent.append ?_
        rw [hquote]
        exact .outside hcd .nil
      · rw [List.reverse_cons, quoteBehind_append, hquote]
        rfl
  | @inside q c s t h ih =>
    have hinside : ¬((some q).isNone = true ∧ c = ',') := fun hboth => Bool.false_ne_true hboth.1
    rw [Assembler.splitOperandsFrom, Assembler.splitOperandsFrom, if_neg hinside, if_neg hinside]
    refine ih ?_ ?_ hdone
    · rw [List.reverse_cons, List.reverse_cons]
      refine hcurrent.append ?_
      rw [hquote]
      exact .inside .nil
    · rw [List.reverse_cons, quoteBehind_append, hquote]
      rfl

theorem Respelled.splitOperands (h : Respelled none s t) :
    List.Forall₂ (Respelled none) (splitOperands s) (splitOperands t) := by
  have hempty : (Text.trim s).isEmpty = (Text.trim t).isEmpty := by
    rw [Bool.eq_iff_iff, List.isEmpty_iff, List.isEmpty_iff]
    exact eq_nil_iff_of_upper_eq h.trim.upper_eq
  rw [Assembler.splitOperands, Assembler.splitOperands, hempty]
  split
  · exact .nil
  · exact h.trim.splitOperandsFrom .nil rfl .nil

/-! ## Statements -/

/-- Statements that only differ in the spelling of their operands, or in operands that nothing
looks at. -/
structure Statement.Alike (st st' : Statement) : Prop where
  label_eq : st.label = st'.label
  operation_eq : st.operation = st'.operation
  operands : List.Forall₂ (Respelled none) st.operands st'.operands ∨
    ∃ m, st.operation = some (.instruction m) ∧ Instruction.withMnemonic m = []

/-- There is no operation with a quote in its name. -/
theorem exists_unknown_of_isQuote {name : List Char} (h : ∃ c ∈ name, isQuote c = true) :
    ∃ m, Operation.ofMnemonic (String.ofList (upper name)) = .instruction m ∧
      Instruction.withMnemonic m = [] := by
  obtain ⟨c, hc, hquote⟩ := h
  have hmem : c ∈ (String.ofList (upper name)).toList := by
    rw [String.toList_ofList]
    rw [isQuote, Bool.or_eq_true, decide_eq_true_eq, decide_eq_true_eq] at hquote
    rcases hquote with rfl | rfl <;> rwa [mem_upper_iff (by decide)]
  have hcapital : ¬IsCapital c := by
    intro hcapital
    rw [hcapital.isQuote] at hquote
    cases hquote
  generalize String.ofList (upper name) = m at hmem
  have hdirective : ∀ directive : String, Capitals directive.toList → m ≠ directive := by
    rintro directive hcapitals rfl
    exact hcapital (hcapitals c hmem)
  refine ⟨m, ?_, ?_⟩
  · rw [Operation.ofMnemonic]
    all_goals exact hdirective _ (by decide)
  · rw [List.eq_nil_iff_forall_not_mem]
    intro opcode hopcode
    rw [Instruction.withMnemonic, List.mem_filter, Bool.and_eq_true, decide_eq_true_eq] at hopcode
    obtain ⟨-, hdefined, rfl⟩ := hopcode
    exact hcapital ((Instruction.isMnemonic_mnemonic _ hdefined).1 c hmem)

/-- An operation is read alike in two spellings. -/
theorem Respelled.readOperation (h : Respelled none s t) (label : Option String) :
    Agree Statement.Alike (Statement.readOperation label s) (Statement.readOperation label t) := by
  obtain ⟨hfirst, hafter⟩ := h.splitWord
  rw [Statement.readOperation, Statement.readOperation]
  generalize Text.splitWord s = word at hfirst hafter ⊢
  generalize Text.splitWord t = word' at hfirst hafter ⊢
  obtain ⟨first, after⟩ := word
  obtain ⟨first', after'⟩ := word'
  dsimp only at hfirst hafter ⊢
  have hempty : first.isEmpty = first'.isEmpty := by
    rw [Bool.eq_iff_iff, List.isEmpty_iff, List.isEmpty_iff]
    exact eq_nil_iff_of_upper_eq hfirst.upper_eq
  have hsecond := upper_splitWord_of_upper_eq hafter.upper_eq
  rw [hempty]
  split
  case isTrue => exact .ok ⟨rfl, rfl, .inl .nil⟩
  case isFalse =>
    simp only [hsecond]
    split
    case isTrue hequ =>
      by_cases hname : isIdentifier first = true
      · have hname' := isIdentifier_of_upper_eq hfirst.upper_eq hname
        rw [(isName_of_isIdentifier hname).uncut.closed] at hafter
        obtain ⟨-, hrest⟩ := hafter.splitWord
        have hplain : ∀ c ∈ (Text.splitWord after).1, isQuote c = false := by
          intro c hc
          rw [← isQuote_toUpper]
          have hmem : c.toUpper ∈ upper (Text.splitWord after).1 := List.mem_map_of_mem hc
          rw [hsecond, hequ.2] at hmem
          have hnone : ∀ d ∈ ['E', 'Q', 'U'], (!isQuote d) = true := List.all_eq_true.mp (by decide)
          exact (Bool.not_eq_true' _).mp (hnone _ hmem)
        rw [quoteBehind_of_forall hplain] at hrest
        rw [labelOf, labelOf, if_pos hname, if_pos hname']
        exact .ok ⟨by rw [hfirst.upper_eq], rfl, .inl hrest.splitOperands⟩
      · have hname' : ¬isIdentifier first' = true :=
          fun h => hname (isIdentifier_of_upper_eq hfirst.upper_eq.symm h)
        rw [labelOf, labelOf, if_neg hname, if_neg hname']
        exact .error _ _
    case isFalse hother =>
      refine .ok ⟨rfl, by rw [hfirst.upper_eq], ?_⟩
      by_cases hquote : ∃ c ∈ first, isQuote c = true
      · right
        obtain ⟨m, hm, hnone⟩ := exists_unknown_of_isQuote hquote
        exact ⟨m, congrArg some hm, hnone⟩
      · left
        have hplain : ∀ c ∈ first, isQuote c = false := fun c hc =>
          Bool.eq_false_iff.mpr fun h => hquote ⟨c, hc, h⟩
        rw [quoteBehind_of_forall hplain] at hafter
        exact hafter.splitOperands

theorem read_of_statementText_eq (h : statementText s = statementText t) :
    Statement.read s = Statement.read t := by
  rw [statementText, statementText] at h
  rw [Statement.read, Statement.read, h]

/-- Lines that say the same are read alike. -/
theorem SameLine.read (h : SameLine s t) :
    Agree (Option.Rel Statement.Alike) (Statement.read s) (Statement.read t) := by
  have htext : Respelled none (trim (withoutComment s)) (trim (withoutComment t)) :=
    h.statementText
  rw [Statement.read, Statement.read]
  generalize trim (withoutComment s) = text at htext ⊢
  generalize trim (withoutComment t) = text' at htext ⊢
  have hempty : text.isEmpty = text'.isEmpty := by
    rw [Bool.eq_iff_iff, List.isEmpty_iff, List.isEmpty_iff]
    exact eq_nil_iff_of_upper_eq htext.upper_eq
  have hread {rest rest' : List Char} (hrest : Respelled none rest rest') (label : Option String) :
      Agree (Option.Rel Statement.Alike)
        (Statement.readOperation label rest >>= fun s => .ok (some s))
        (Statement.readOperation label rest' >>= fun s => .ok (some s)) :=
    (hrest.readOperation label).bind fun st st' hst => .ok (.some hst)
  rw [hempty]
  split
  case isTrue => exact .ok .none
  case isFalse =>
    rcases htext.labelPart? with ⟨hnone, hnone'⟩ | ⟨name, name', rest, rest', hs, ht, hname, hrest⟩
    · rw [hnone, hnone']
      exact hread htext none
    · rw [hs, ht]
      refine (labelOf_of_upper_eq hname).bind ?_
      rintro label _ rfl
      exact hread hrest (some label)

end Assembler

end Cpm80
