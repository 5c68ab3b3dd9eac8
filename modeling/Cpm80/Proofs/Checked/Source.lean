import Cpm80.Assembler.Statement
import Cpm80.Proofs.Blanks
import Cpm80.Proofs.Checked.Places
import Cpm80.Proofs.Expressions

/-!
# Source texts, with every access checked

The assembler goes over a text from byte to byte, notes the places of the marks that it looks for,
and takes the text between two places. Here each of these cuts is checked: where it would not lie
between two characters of the text, the reader gives nothing. It always gives what the assembler
works with.
-/
namespace Cpm80.Assembler.Checked

open Text

/-! ## Readers -/

/-- The place of the semicolon that begins a comment. -/
def commentPlace? (quote : Option Char) (place : Nat) : List Char → Option Nat
  | [] => none
  | c :: rest =>
    if quote.isNone ∧ c = ';' then some place
    else commentPlace? (quoteAfter quote c) (place + c.utf8Size) rest

def withoutComment (line : List Char) : Option (List Char) :=
  match commentPlace? none 0 line with
  | none => some line
  | some place => upTo? place line

/-- Cuts the rest of `whole`, which begins at `place`, at the commas outside quotes, after the
operands `done`, in reverse, and the beginning of one more at `start`. -/
def splitOperandsFrom (whole : List Char) (quote : Option Char) (start place : Nat)
    (done : List (List Char)) : List Char → Option (List (List Char))
  | [] => do
    let operand ← from? start whole
    some (trim operand :: done).reverse
  | c :: rest =>
    if quote.isNone ∧ c = ',' then do
      let operand ← slice? start place whole
      splitOperandsFrom whole none (place + 1) (place + 1) (trim operand :: done) rest
    else splitOperandsFrom whole (quoteAfter quote c) start (place + c.utf8Size) done rest

def splitOperands (text : List Char) : Option (List (List Char)) :=
  let text := trim text
  if text.isEmpty then some [] else splitOperandsFrom text none 0 0 [] text

/-- What stands between the quotes of an operand that is one quoted string. -/
def quoted? (operand : List Char) : Option (Except Fault (Option (List Char))) :=
  match operand.head? with
  | none => some (.ok none)
  | some q =>
    if isQuote q then do
      let rest ← from? 1 operand
      match placeOf? (· = q) rest with
      | none => some (.error .unterminatedString)
      | some last =>
        if last + 2 = size operand then do
          let inner ← slice? 1 (last + 1) operand
          some (.ok (some inner))
        else some (.ok none)
    else some (.ok none)

/-- Cuts the rest of `whole`, which begins at `place`, at the signs outside quotes, after the terms
`done`, in reverse, and the beginning of one more at `start`. -/
def splitTermsFrom (whole : List Char) (quote : Option Char) (negative : Bool) (start place : Nat)
    (done : List SignedText) : List Char → Option (Except Fault (List SignedText))
  | [] =>
    if quote.isSome then some (.error .unterminatedString)
    else do
      let term ← from? start whole
      some (.ok (⟨negative, term⟩ :: done).reverse)
  | c :: rest =>
    if quote.isNone ∧ (c = '+' ∨ c = '-') then do
      let term ← slice? start place whole
      if (trim term).isEmpty then
        if place ≠ 0 ∧ !done.isEmpty then some (.error (.malformedNumber (String.ofList whole)))
        else splitTermsFrom whole none (c = '-') (place + 1) (place + 1) done rest
      else
        splitTermsFrom whole none (c = '-') (place + 1) (place + 1) (⟨negative, term⟩ :: done) rest
    else splitTermsFrom whole (quoteAfter quote c) negative start (place + c.utf8Size) done rest

def splitTerms (whole : List Char) : Option (Except Fault (List SignedText)) :=
  splitTermsFrom whole none false 0 0 [] whole

/-- A quoted character is the first byte of what stands between the quotes. -/
def readTerm (text : List Char) : Option (Except Fault Term) :=
  match text with
  | [] => some (.error (.malformedNumber ""))
  | ['$'] => some (.ok .here)
  | c :: _ =>
    if isQuote c then do
      match ← quoted? text with
      | .error e => some (.error e)
      | .ok none => some (.error (.malformedNumber (String.ofList text)))
      | .ok (some inner) =>
        if size inner = 1 then do
          let b ← (Utf8.encode inner)[0]?
          some (.ok (.constant b.toNat))
        else some (.error (.malformedNumber (String.ofList text)))
    else some (Term.read text)

/-- The label in front of the first colon and the text after it. -/
def labelPart? (text : List Char) : Option (Option (List Char × List Char)) :=
  match placeOf? (· = ':') text with
  | none => some none
  | some place => do
    let candidate ← upTo? place text
    if candidate.any fun c => isBlank c || isQuote c then some none
    else do
      let rest ← from? (place + 1) text
      some (some (candidate, rest))

def readOperation (label : Option String) (text : List Char) :
    Option (Except Fault Statement) := do
  let (first, after) ← Text.Checked.splitWord text
  if first.isEmpty then some (.ok { label })
  else
    let (second, afterSecond) ← Text.Checked.splitWord after
    if label.isNone ∧ upper second = ['E', 'Q', 'U'] then
      match labelOf first with
      | .error e => some (.error e)
      | .ok name => do
        let operands ← splitOperands afterSecond
        some (.ok ⟨some name, some .equate, operands⟩)
    else do
      let operands ← splitOperands after
      some (.ok ⟨label, some (.ofMnemonic (String.ofList (upper first))), operands⟩)

def readStatement (line : List Char) : Option (Except Fault (Option Statement)) := do
  let text := trim (← withoutComment line)
  if text.isEmpty then some (.ok none)
  else
    match ← labelPart? text with
    | none => do
      let statement ← readOperation none text
      some (statement.map some)
    | some (candidate, rest) =>
      match labelOf candidate with
      | .error e => some (.error e)
      | .ok label => do
        let statement ← readOperation (some label) rest
        some (statement.map some)

def readSourceFrom (line : Nat) (done : Source) : List (List Char) → Option Source
  | [] => some done.reversed
  | text :: rest => do
    match ← readStatement text with
    | .ok none => readSourceFrom (line + 1) done rest
    | .ok (some s) =>
      let done := { done with statements := (line, s) :: done.statements }
      if s.operation = some .finish then some done.reversed
      else readSourceFrom (line + 1) done rest
    | .error e =>
      readSourceFrom (line + 1) { done with diagnostics := ⟨line, e⟩ :: done.diagnostics } rest

def readSource (text : List Char) : Option Source :=
  readSourceFrom 1 ⟨[], []⟩ (lines text)

/-! ## What they read -/

section

variable {quote : Option Char} {c : Char} {rest done : List Char}

theorem size_reverse_cons (c : Char) (s : List Char) :
    size (c :: s).reverse = size s.reverse + c.utf8Size := by
  rw [List.reverse_cons, size_append, size_cons, size_nil, Nat.add_zero]

theorem isQuote_utf8Size (h : isQuote c = true) : c.utf8Size = 1 := by
  obtain rfl | rfl : c = '\'' ∨ c = '"' := by simpa [isQuote] using h
  all_goals rfl

/-- The text up to the place of a comment, or all of it, is the text without the comment. -/
theorem upTo_commentPlace? (quote : Option Char) (done rest : List Char) :
    (commentPlace? quote (size done.reverse) rest).elim (some (done.reverse ++ rest))
        (upTo? · (done.reverse ++ rest)) = some (withoutCommentFrom quote done rest) := by
  induction rest generalizing quote done with
  | nil => rw [commentPlace?, withoutCommentFrom, Option.elim_none, List.append_nil]
  | cons c rest ih =>
    rw [commentPlace?, withoutCommentFrom]
    by_cases h : quote.isNone = true ∧ c = ';'
    · rw [if_pos h, if_pos h, Option.elim_some, upTo?_size]
    · have hnext := ih (quoteAfter quote c) (c :: done)
      rw [size_reverse_cons, List.reverse_cons, List.append_assoc, List.singleton_append] at hnext
      rw [if_neg h, if_neg h, hnext]

theorem withoutComment_eq (line : List Char) :
    withoutComment line = some (Assembler.withoutComment line) := by
  have h := upTo_commentPlace? none [] line
  rw [List.reverse_nil, size_nil, List.nil_append] at h
  rw [Assembler.withoutComment, ← h, withoutComment]
  cases commentPlace? none 0 line <;> rfl

/-- Between two commas stands what was gathered in between. -/
theorem splitOperandsFrom_eq (quote : Option Char) (before current : List Char)
    (done : List (List Char)) (rest : List Char) :
    splitOperandsFrom (before ++ (current.reverse ++ rest)) quote (size before)
        (size before + size current.reverse) done rest =
      some (Assembler.splitOperandsFrom quote current done rest) := by
  induction rest generalizing quote before current done with
  | nil =>
    rw [splitOperandsFrom, Assembler.splitOperandsFrom, List.append_nil, from?_size]
    rfl
  | cons c rest ih =>
    rw [splitOperandsFrom, Assembler.splitOperandsFrom]
    by_cases h : quote.isNone = true ∧ c = ','
    · have hnext := ih none (before ++ (current.reverse ++ [','])) [] (trim current.reverse :: done)
      have hsize : size (before ++ (current.reverse ++ [','])) =
          size before + size current.reverse + 1 := by
        rw [size_append, size_append]
        rfl
      simp only [hsize, List.reverse_nil, size_nil, Nat.add_zero, List.append_assoc,
        List.nil_append, List.singleton_append] at hnext
      rw [if_pos h, if_pos h, slice?_size, Option.bind_eq_bind, Option.bind_some, h.2, hnext]
    · have hnext := ih (quoteAfter quote c) before (c :: current) done
      rw [size_reverse_cons, List.reverse_cons, List.append_assoc, List.singleton_append,
        ← Nat.add_assoc] at hnext
      rw [if_neg h, if_neg h, hnext]

theorem splitOperands_eq (text : List Char) :
    splitOperands text = some (Assembler.splitOperands text) := by
  rw [splitOperands, Assembler.splitOperands]
  split
  · rfl
  · exact splitOperandsFrom_eq none [] [] [] (trim text)

theorem quoted?_eq (operand : List Char) : quoted? operand = some (Assembler.quoted? operand) := by
  cases operand with
  | nil => rfl
  | cons q rest =>
    rw [quoted?, Assembler.quoted?, List.head?_cons]
    dsimp only
    split
    case isFalse => rfl
    case isTrue hq =>
      have hone : size [q] = 1 := by rw [size_cons, isQuote_utf8Size hq, size_nil]
      have hfrom : from? 1 (q :: rest) = some rest := hone ▸ from?_size [q] rest
      rw [hfrom, Option.bind_eq_bind, Option.bind_some]
      have hnot : (fun c => !decide (c = q)) = fun c => decide (c ≠ q) := by simp
      have hsearch := search (· = q) rest
      generalize placeOf? (· = q) rest = place at hsearch
      cases hsearch with
      | missed hskip hrest =>
        rw [hnot] at hrest
        rw [hrest]
      | @found before after c hc hskip hrest =>
        obtain rfl : c = q := of_decide_eq_true hc
        rw [hnot] at hskip hrest
        rw [hskip, hrest]
        dsimp only
        have hsize : size (c :: (before ++ c :: after)) = size before + 2 + size after := by
          rw [size_cons, size_append, size_cons, isQuote_utf8Size hq]
          omega
        rw [hsize]
        cases after with
        | nil =>
          have hslice : slice? 1 (1 + size before) (c :: (before ++ [c])) = some before :=
            hone ▸ slice?_size [c] before [c]
          rw [size_nil, Nat.add_zero, if_pos rfl, Nat.add_comm (size before) 1, hslice]
          rfl
        | cons d after =>
          have hd := d.utf8Size_pos
          rw [size_cons, if_neg (by omega)]

theorem isEmpty_trim_reverse (s : List Char) :
    (trim s.reverse).isEmpty = (trim s).isEmpty := by
  have h : (trim s.reverse = []) = (trim s = []) := by
    simp only [trim_eq_nil_iff_blank, Blank, List.mem_reverse]
  rw [Bool.eq_iff_iff, List.isEmpty_iff, List.isEmpty_iff, h]

/-- Between two signs stands what was gathered in between, and a term is kept only behind the
beginning of the text. -/
theorem splitTermsFrom_eq (quote : Option Char) (negative : Bool) (before current : List Char)
    (done : List SignedText) (rest : List Char) (hdone : done ≠ [] → before ≠ []) :
    splitTermsFrom (before ++ (current.reverse ++ rest)) quote negative (size before)
        (size before + size current.reverse) done rest =
      some (Assembler.splitTermsFrom (before ++ (current.reverse ++ rest)) quote negative current
        done rest) := by
  induction rest generalizing quote negative before current done with
  | nil =>
    rw [splitTermsFrom, Assembler.splitTermsFrom, List.append_nil, from?_size]
    split <;> rfl
  | cons c rest ih =>
    rw [splitTermsFrom, Assembler.splitTermsFrom]
    by_cases h : quote.isNone = true ∧ (c = '+' ∨ c = '-')
    · have hc : c.utf8Size = 1 := by obtain rfl | rfl := h.2 <;> rfl
      have hnext (done : List SignedText) :=
        ih none (c = '-') (before ++ (current.reverse ++ [c])) [] done (by simp)
      have hsize : size (before ++ (current.reverse ++ [c])) =
          size before + size current.reverse + 1 := by
        rw [size_append, size_append, size_cons, hc, size_nil, Nat.add_assoc]
      simp only [hsize, List.reverse_nil, size_nil, Nat.add_zero, List.append_assoc,
        List.nil_append, List.singleton_append] at hnext
      rw [if_pos h, if_pos h, slice?_size, Option.bind_eq_bind, Option.bind_some,
        isEmpty_trim_reverse, hnext, hnext]
      have hplace (hne : done ≠ []) : size before + size current.reverse ≠ 0 := by
        cases before with
        | nil => exact absurd rfl (hdone hne)
        | cons d before =>
          have hd := d.utf8Size_pos
          rw [size_cons]
          omega
      by_cases hblank : (trim current).isEmpty = true
      · rw [if_pos hblank, if_pos hblank]
        cases done with
        | nil => simp
        | cons term done =>
          rw [if_pos ⟨hplace (List.cons_ne_nil _ _), rfl⟩]
          rfl
      · rw [if_neg hblank, if_neg hblank]
    · have hnext := ih (quoteAfter quote c) negative before (c :: current) done hdone
      rw [size_reverse_cons, List.reverse_cons, List.append_assoc, List.singleton_append,
        ← Nat.add_assoc] at hnext
      rw [if_neg h, if_neg h, hnext]

theorem splitTerms_eq (whole : List Char) :
    splitTerms whole = some (Assembler.splitTerms whole) :=
  splitTermsFrom_eq none false [] [] [] whole fun h => absurd rfl h

theorem readTerm_eq (text : List Char) : readTerm text = some (Term.read text) := by
  unfold readTerm
  split
  case h_1 => rfl
  case h_2 => rfl
  case h_3 c rest hhere =>
    by_cases hc : isQuote c = true
    · rw [if_pos hc, quoted?_eq, Option.bind_eq_bind, Option.bind_some]
      rw [Term.read.eq_3 _ _ hhere, if_pos hc]
      cases Assembler.quoted? (c :: rest) with
      | error e => rfl
      | ok inner =>
        cases inner with
        | none => rfl
        | some inner =>
          rcases hbytes : Utf8.encode inner with _ | ⟨b, _ | ⟨b', bytes⟩⟩ <;> simp [size, hbytes]
    · rw [if_neg hc]

theorem labelPart?_eq (text : List Char) : labelPart? text = some (Assembler.labelPart? text) := by
  rw [labelPart?, Assembler.labelPart?]
  have hnot : (fun c => !decide (c = ':')) = fun c => decide (c ≠ ':') := by simp
  have hsearch := search (· = ':') text
  generalize placeOf? (· = ':') text = place at hsearch
  cases hsearch with
  | missed hskip hrest =>
    rw [hnot] at hrest
    rw [hrest]
  | @found before after c hc hskip hrest =>
    obtain rfl : c = ':' := of_decide_eq_true hc
    rw [hnot] at hskip hrest
    have hfrom := from?_size (before ++ [':']) after
    rw [size_append, List.append_assoc, List.singleton_append] at hfrom
    dsimp only
    rw [hskip, hrest, upTo?_size, Option.bind_eq_bind, Option.bind_some]
    split
    · rfl
    · exact hfrom ▸ rfl

theorem readOperation_eq (label : Option String) (text : List Char) :
    readOperation label text = some (Statement.readOperation label text) := by
  rw [readOperation, Statement.readOperation, Text.Checked.splitWord_eq]
  simp only [Option.bind_eq_bind, Option.bind_some, Text.Checked.splitWord_eq, splitOperands_eq]
  split
  · rfl
  · split
    · cases labelOf (splitWord text).1 <;> rfl
    · rfl

theorem readStatement_eq (line : List Char) :
    readStatement line = some (Statement.read line) := by
  rw [readStatement, Statement.read, withoutComment_eq]
  simp only [Option.bind_eq_bind, Option.bind_some, labelPart?_eq, readOperation_eq]
  split
  · rfl
  · cases Assembler.labelPart? (trim (Assembler.withoutComment line)) with
    | none => cases Statement.readOperation none (trim (Assembler.withoutComment line)) <;> rfl
    | some parts =>
      obtain ⟨candidate, rest⟩ := parts
      dsimp only
      cases labelOf candidate with
      | error e => rfl
      | ok label =>
        change some ((Statement.readOperation (some label) rest).map some) =
          some (Statement.readOperation (some label) rest >>= fun s => .ok (some s))
        cases Statement.readOperation (some label) rest <;> rfl

theorem readSourceFrom_eq (line : Nat) (done : Source) (texts : List (List Char)) :
    readSourceFrom line done texts = some (Source.readFrom line done texts) := by
  induction texts generalizing line done with
  | nil => rfl
  | cons text rest ih =>
    rw [readSourceFrom, Source.readFrom, readStatement_eq, Option.bind_eq_bind, Option.bind_some]
    rcases Statement.read text with e | _ | s
    · exact ih _ _
    · exact ih _ _
    · dsimp only
      split
      · rfl
      · exact ih _ _

theorem readSource_eq (text : List Char) : readSource text = some (Source.read text) :=
  readSourceFrom_eq 1 ⟨[], []⟩ (lines text)

end

/-! ## Operands are parts of the source -/

theorem trim_sublist (s : List Char) : (trim s).Sublist s := by
  have hkept := trimEnd_prefix (trimStart s)
  exact hkept.sublist.trans (List.dropWhile_sublist _)

theorem withoutCommentFrom_sublist (quote : Option Char) (done rest : List Char) :
    (withoutCommentFrom quote done rest).Sublist (done.reverse ++ rest) := by
  induction rest generalizing quote done with
  | nil =>
    simp only [withoutCommentFrom, List.append_nil, List.Sublist.refl]
  | cons c rest ih =>
    rw [withoutCommentFrom]
    split
    · exact List.sublist_append_left _ _
    · simpa using ih (quoteAfter quote c) (c :: done)

theorem sublist_of_mem_splitOperandsFrom {quote : Option Char} {current : List Char}
    {done : List (List Char)} {rest operand : List Char}
    (h : operand ∈ Assembler.splitOperandsFrom quote current done rest) :
    operand ∈ done ∨ operand.Sublist (current.reverse ++ rest) := by
  induction rest generalizing quote current done with
  | nil =>
    rw [Assembler.splitOperandsFrom, List.mem_reverse, List.mem_cons] at h
    obtain rfl | hdone := h
    · exact .inr (by simpa using trim_sublist current.reverse)
    · exact .inl hdone
  | cons c rest ih =>
    rw [Assembler.splitOperandsFrom] at h
    split at h
    · obtain hdone | hrest := ih h
      · obtain rfl | hdone := List.mem_cons.mp hdone
        · exact .inr ((trim_sublist _).trans (List.sublist_append_left _ _))
        · exact .inl hdone
      · exact .inr ((hrest.trans (List.sublist_cons_self c rest)).trans
          (List.sublist_append_right _ _))
    · obtain hdone | hrest := ih h
      · exact .inl hdone
      · exact .inr (by simpa using hrest)

theorem sublist_of_mem_splitOperands {text operand : List Char}
    (h : operand ∈ Assembler.splitOperands text) : operand.Sublist text := by
  rw [Assembler.splitOperands] at h
  split at h
  · cases h
  · obtain hnone | hsome := sublist_of_mem_splitOperandsFrom h
    · cases hnone
    · exact hsome.trans (trim_sublist text)

theorem splitWord_sublist (s : List Char) : (splitWord s).2.Sublist s := by
  rw [splitWord, List.span_eq_takeWhile_dropWhile]
  exact (List.dropWhile_sublist _).trans (List.dropWhile_sublist _)

theorem labelPart?_sublist {text candidate rest : List Char}
    (h : Assembler.labelPart? text = some (candidate, rest)) : rest.Sublist text := by
  rw [Assembler.labelPart?] at h
  split at h
  · cases h
  case h_2 c after hafter =>
    dsimp only at h
    split at h
    · cases h
    · cases h
      exact (List.sublist_cons_self c rest).trans (hafter ▸ List.dropWhile_sublist _)

theorem sublist_of_readOperation {label : Option String} {text operand : List Char}
    {st : Statement} (h : Statement.readOperation label text = .ok st)
    (hmem : operand ∈ st.operands) : operand.Sublist text := by
  have hafter := splitWord_sublist text
  rw [Statement.readOperation] at h
  rcases hword : splitWord text with ⟨first, after⟩
  rw [hword] at h hafter
  dsimp only at h
  split at h
  · cases h
    cases hmem
  · have hsecond := splitWord_sublist after
    split at h
    · obtain ⟨name, -, hst⟩ := bind_eq_ok.mp h
      cases hst
      exact ((sublist_of_mem_splitOperands hmem).trans hsecond).trans hafter
    · cases h
      exact (sublist_of_mem_splitOperands hmem).trans hafter

theorem sublist_of_readStatement {line operand : List Char} {st : Statement}
    (h : Statement.read line = .ok (some st)) (hmem : operand ∈ st.operands) :
    operand.Sublist line := by
  have htext : (trim (Assembler.withoutComment line)).Sublist line :=
    (trim_sublist _).trans (withoutCommentFrom_sublist none [] line)
  rw [Statement.read] at h
  split at h
  · cases h
  · split at h
    case h_1 candidate rest hlabel =>
      obtain ⟨label, -, h⟩ := bind_eq_ok.mp h
      obtain ⟨st', hst, h⟩ := bind_eq_ok.mp h
      cases h
      exact ((sublist_of_readOperation hst hmem).trans (labelPart?_sublist hlabel)).trans htext
    case h_2 hlabel =>
      obtain ⟨st', hst, h⟩ := bind_eq_ok.mp h
      cases h
      exact (sublist_of_readOperation hst hmem).trans htext

theorem endedLine_sublist (current : List Char) :
    (endedLine current).Sublist current.reverse := by
  rw [endedLine.eq_def]
  split
  · rw [List.reverse_cons]
    exact List.sublist_append_left _ _
  · exact List.Sublist.refl _

theorem sublist_of_mem_linesFrom {done : List (List Char)} {current rest line : List Char}
    (h : line ∈ linesFrom done current rest) :
    line ∈ done ∨ line.Sublist (current.reverse ++ rest) := by
  induction rest generalizing done current with
  | nil =>
    rw [linesFrom, List.mem_reverse] at h
    split at h
    · exact .inl h
    · obtain rfl | hdone := List.mem_cons.mp h
      · exact .inr (List.sublist_append_left _ _)
      · exact .inl hdone
  | cons c rest ih =>
    rw [linesFrom] at h
    split at h
    · obtain hdone | hrest := ih h
      · obtain rfl | hdone := List.mem_cons.mp hdone
        · exact .inr ((endedLine_sublist current).trans (List.sublist_append_left _ _))
        · exact .inl hdone
      · exact .inr ((hrest.trans (List.sublist_cons_self c rest)).trans
          (List.sublist_append_right _ _))
    · obtain hdone | hrest := ih h
      · exact .inl hdone
      · exact .inr (by simpa using hrest)

/-- A statement of a source was read from one of its lines. -/
theorem exists_line_of_mem {line : Nat} {done : Source} {texts : List (List Char)}
    {numbered : Nat × Statement} (h : numbered ∈ (Source.readFrom line done texts).statements) :
    numbered ∈ done.statements ∨ ∃ text ∈ texts, Statement.read text = .ok (some numbered.2) := by
  induction texts generalizing line done with
  | nil => exact .inl (List.mem_reverse.mp h)
  | cons text rest ih =>
    have hlater {line done} (h : numbered ∈ (Source.readFrom line done rest).statements) :
        numbered ∈ done.statements ∨
          ∃ text' ∈ text :: rest, Statement.read text' = .ok (some numbered.2) :=
      (ih h).imp_right fun ⟨text', hmem, hread⟩ => ⟨text', List.mem_cons_of_mem _ hmem, hread⟩
    rw [Source.readFrom] at h
    split at h
    case h_1 hread => exact hlater h
    case h_2 st hread =>
      have hdone (h : numbered ∈ (line, st) :: done.statements) :
          numbered ∈ done.statements ∨
            ∃ text' ∈ text :: rest, Statement.read text' = .ok (some numbered.2) := by
        obtain rfl | hdone := List.mem_cons.mp h
        · exact .inr ⟨text, List.mem_cons_self, hread⟩
        · exact .inl hdone
      dsimp only at h
      split at h
      · exact hdone (List.mem_reverse.mp h)
      · obtain h | h := hlater h
        · exact hdone h
        · exact .inr h
    case h_3 e hread =>
      have hdone := hlater h
      exact hdone

theorem sublist_of_mem_operands {text operand : List Char} {numbered : Nat × Statement}
    (hmem : numbered ∈ (Source.read text).statements) (h : operand ∈ numbered.2.operands) :
    operand.Sublist text := by
  obtain hnone | ⟨line, hline, hread⟩ := exists_line_of_mem hmem
  · cases hnone
  · obtain hnone | hsub := sublist_of_mem_linesFrom hline
    · cases hnone
    · exact (sublist_of_readStatement hread h).trans hsub

end Cpm80.Assembler.Checked
