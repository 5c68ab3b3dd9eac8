import Cpm80.Proofs.Layout
import Cpm80.Proofs.LineParts
import Cpm80.Proofs.OperandGrammar
import Cpm80.Proofs.Passes
import Cpm80.Proofs.RenderedLines

/-!
# Data lines

A line of data is put together from strings and decimal numbers. The comment, the label, the
operands and the strings are each found by a scanner that keeps track of quotes on its own, over
a different part of the line. They agree: whatever the strings hold, what is emitted for the line
is the characters of the strings and the numbers, one behind the other.
-/
namespace Cpm80.Assembler

open Text Numeral

/-! ## Items -/

/-- One item of data: a string, or a number that fits a byte. -/
inductive DataItem
  | string (quote : Char) (body : List Char) (hquote : isQuote quote = true)
    (hbody : ∀ c ∈ body, c ≠ quote ∧ c ≠ '\n')
  | number (digits : List Char) (value : Nat) (hdigits : IsNumeral 10 digits value)
    (hbyte : value ≤ 255)

namespace DataItem

def text : DataItem → List Char
  | string quote body _ _ => quote :: body ++ [quote]
  | number digits _ _ _ => digits

/-- What stands for an item in the image. -/
def bytes : DataItem → List UInt8
  | string _ body _ _ => Utf8.encode body
  | number _ value _ _ => [UInt8.ofNat value]

/-- The string that an item is. -/
def body? : DataItem → Option (List Char)
  | string _ body _ _ => some body
  | number _ _ _ _ => none

variable {symbols : Symbols} {here : UInt16}

theorem isSymbolChar_of_number {digits : List Char} {value : Nat}
    (hdigits : IsNumeral 10 digits value) :
    ∀ c ∈ digits, c.isDigit = true ∧ isSymbolChar c = true := by
  intro c hc
  obtain ⟨d, hsmall, hd⟩ := hdigits.digit_of_mem hc
  exact ⟨isDigit_of_digit?_lt hd hsmall, isSymbolChar_of_digit? hd⟩

/-- Where an item begins a reader sees a quote or a digit. -/
theorem exists_cons (item : DataItem) :
    ∃ c rest, item.text = c :: rest ∧ (isQuote c = true ∨ c.isDigit = true) := by
  cases item with
  | string quote body hquote hbody => exact ⟨quote, body ++ [quote], rfl, .inl hquote⟩
  | number digits value hdigits hbyte =>
    obtain ⟨c, rest, rfl⟩ := List.exists_cons_of_ne_nil hdigits.1
    exact ⟨c, rest, rfl, .inr (isSymbolChar_of_number hdigits c List.mem_cons_self).1⟩

/-- No mark of a line stands outside the quotes of an item. -/
theorem balanced {mark : Char} (hmark : isSymbolChar mark = false ∧ isQuote mark = false)
    (item : DataItem) : Balanced (· ≠ mark) item.text := by
  cases item with
  | string quote body hquote hbody =>
    refine balanced_string hquote (fun hmem => (hbody quote hmem).1 rfl) ?_
    rintro rfl
    rw [hmark.2] at hquote
    cases hquote
  | number digits value hdigits hbyte =>
    refine balanced_of_forall fun c hc => ⟨?_, ?_⟩
    · rintro rfl
      have hplain := (isSymbolChar_of_number hdigits c hc).2
      rw [hmark.1] at hplain
      cases hplain
    · exact (plain_of_isSymbolChar (isSymbolChar_of_number hdigits c hc).2).2.1

theorem tight (item : DataItem) : Tight item.text := by
  cases item with
  | string quote body hquote hbody =>
    have hblank : isBlank quote = false := by
      rw [isQuote, Bool.or_eq_true, decide_eq_true_eq, decide_eq_true_eq] at hquote
      rcases hquote with rfl | rfl <;> decide
    constructor
    · exact fun c hc => Option.some.inj hc ▸ hblank
    · intro c hc
      rw [text, List.getLast?_concat] at hc
      exact Option.some.inj hc ▸ hblank
  | number digits value hdigits hbyte =>
    have hunbroken : Unbroken digits :=
      fun c hc => (plain_of_isSymbolChar (isSymbolChar_of_number hdigits c hc).2).2.2
    exact hunbroken.tight

theorem feed_notMem (item : DataItem) : '\n' ∉ item.text := by
  cases item with
  | string quote body hquote hbody =>
    have hne : '\n' ≠ quote := by
      rintro rfl
      exact absurd hquote (by decide)
    rw [text, List.mem_append, List.mem_cons, List.mem_singleton]
    rintro ((heq | hmem) | heq)
    · exact hne heq
    · exact (hbody _ hmem).2 rfl
    · exact hne heq
  | number digits value hdigits hbyte =>
    intro hmem
    exact absurd (isSymbolChar_of_number hdigits _ hmem).2 (by decide)

theorem quoted?_text (item : DataItem) : quoted? item.text = .ok item.body? := by
  cases item with
  | string quote body hquote hbody =>
    exact quoted?_string hquote fun hmem => (hbody quote hmem).1 rfl
  | number digits value hdigits hbyte =>
    obtain ⟨c, rest, rfl⟩ := List.exists_cons_of_ne_nil hdigits.1
    have hplain := isSymbolChar_of_number hdigits c List.mem_cons_self
    rw [text, quoted?, (plain_of_isSymbolChar hplain.2).2.1]
    rfl

theorem dataSize_text (item : DataItem) : dataSize item.text = item.bytes.length := by
  have hquoted := item.quoted?_text
  cases item with
  | string quote body hquote hbody => exact dataSize_of_quoted hquoted
  | number digits value hdigits hbyte => exact dataSize_of_expression hquoted

theorem evaluate_digits {digits : List Char} {value : Nat} (hdigits : IsNumeral 10 digits value)
    (hbyte : value ≤ 255) : evaluate symbols here digits = .ok value := by
  have hsum : IsSum symbols here false ([] ++ digits ++ []) [signed false value] :=
    .last blank_nil (.number (.decimal hdigits) (by omega)) blank_nil
  rw [List.nil_append, List.append_nil] at hsum
  refine evaluate_eq_ok_iff.mpr ⟨0, [(value : Int)], .terms hsum, fun k => ?_, by simp⟩
  have hpartial : ([(value : Int)].take k).sum = 0 ∨ ([(value : Int)].take k).sum = value := by
    cases k <;> simp
  rw [FitsSigned64]
  omega

theorem byteValue_digits {digits : List Char} {value : Nat} (hdigits : IsNumeral 10 digits value)
    (hbyte : value ≤ 255) : byteValue symbols here digits = .ok (UInt8.ofNat value) := by
  have hmod : ((value : Int) % 256).toNat = value := by omega
  rw [byteValue, evaluate_digits hdigits hbyte]
  simp only [bind, Except.bind]
  rw [if_pos (by omega), hmod]

end DataItem

/-- The texts of items, as a line's operands. -/
def itemTexts (items : List DataItem) : List (List Char) :=
  items.map DataItem.text

/-- What stands for items in the image. -/
def itemBytes (items : List DataItem) : List UInt8 :=
  items.flatMap DataItem.bytes

theorem Sizing.bytes_cons {s s' : Sizing} {operand : List Char} {rest : List (List Char)}
    {text? : Option (List Char)} (hquoted : quoted? operand = .ok text?)
    (hadvance : s.advance (dataSize operand) = (s', none)) :
    s.bytes (operand :: rest) = s'.bytes rest := by
  cases text? with
  | some text =>
    rw [dataSize_of_quoted hquoted] at hadvance
    simp only [Sizing.bytes, hquoted, hadvance]
  | none =>
    rw [dataSize_of_expression hquoted] at hadvance
    simp only [Sizing.bytes, hquoted, hadvance]

/-- The sizing pass makes room for items. -/
theorem Sizing.bytes_itemTexts {s : Sizing} {items : List DataItem}
    (h : s.cursor.address.toNat + (itemBytes items).length ≤ 65536) :
    s.bytes (itemTexts items) =
      ({ s with cursor := s.cursor.after (.over (itemBytes items).length) }, none) := by
  induction items generalizing s with
  | nil =>
    rw [itemBytes, List.flatMap_nil, List.length_nil, Cursor.after_over_zero]
    rfl
  | cons item items ih =>
    rw [itemBytes, List.flatMap_cons, List.length_append, ← itemBytes] at h
    have hadvance : s.advance (dataSize item.text) =
        ({ s with cursor := s.cursor.after (.over item.bytes.length) }, none) := by
      rw [item.dataSize_text, Sizing.advance, Cursor.advance_of_le (by omega)]
    have hrest : (s.cursor.after (.over item.bytes.length)).address.toNat +
        (itemBytes items).length ≤ 65536 := by
      rw [Cursor.toNat_address_over_of_le (by omega)]
      omega
    rw [itemTexts, List.map_cons, Sizing.bytes_cons item.quoted?_text hadvance, ← itemTexts,
      ih hrest, Cursor.after_over_over, itemBytes, itemBytes, List.flatMap_cons,
      List.length_append]

section

variable {s s' : Emission} {symbols : Symbols} {here : UInt16} {operand text : List Char}
  {rest : List (List Char)} {v : UInt8}

theorem Emission.bytes_cons_string (hquoted : quoted? operand = .ok (some text))
    (hemit : s.emit (Utf8.encode text) = (s', none)) :
    s.bytes symbols here (operand :: rest) = s'.bytes symbols here rest := by
  simp only [Emission.bytes, hquoted, bind, Except.bind, hemit]

theorem Emission.bytes_cons_expression (hquoted : quoted? operand = .ok none)
    (hvalue : byteValue symbols here operand = .ok v) (hemit : s.emit [v] = (s', none)) :
    s.bytes symbols here (operand :: rest) = s'.bytes symbols here rest := by
  simp only [Emission.bytes, hquoted, bind, Except.bind, hvalue, hemit]

theorem Emission.bytes_itemTexts_cons {item : DataItem} {items : List DataItem}
    (hemit : s.emit item.bytes = (s', none)) :
    s.bytes symbols here (itemTexts (item :: items)) = s'.bytes symbols here (itemTexts items) := by
  have hquoted := item.quoted?_text
  cases item with
  | string quote body hquote hbody => exact bytes_cons_string hquoted hemit
  | number digits value hdigits hbyte =>
    exact bytes_cons_expression hquoted (DataItem.byteValue_digits hdigits hbyte) hemit

end

/-- The emitting pass puts the bytes of items behind the image. -/
theorem Emission.bytes_itemTexts {s : Emission} {symbols : Symbols} {here : UInt16}
    {items : List DataItem} (h : s.cursor.address.toNat + (itemBytes items).length ≤ 65536) :
    s.bytes symbols here (itemTexts items) = (s.appended (itemBytes items), none) := by
  induction items generalizing s with
  | nil => exact congrArg (·, none) s.appended_nil.symm
  | cons item items ih =>
    rw [itemBytes, List.flatMap_cons, List.length_append, ← itemBytes] at h
    have hemit : s.emit item.bytes = (s.appended item.bytes, none) :=
      Emission.emit_of_le (by omega)
    have hrest : (s.appended item.bytes).cursor.address.toNat + (itemBytes items).length ≤
        65536 := by
      rw [Emission.appended, Cursor.toNat_address_over_of_le (by omega)]
      omega
    rw [bytes_itemTexts_cons hemit, ih hrest, Emission.appended_appended, itemBytes, itemBytes,
      List.flatMap_cons]

/-! ## Lines -/

/-- Blanks within a line. -/
def Gap (s : List Char) : Prop :=
  ∀ c ∈ s, isBlank c = true ∧ c ≠ '\n'

instance (s : List Char) : Decidable (Gap s) :=
  List.decidableBAll (fun c => isBlank c = true ∧ c ≠ '\n') s

theorem Gap.blank {s : List Char} (h : Gap s) : Blank s :=
  fun c hc => (h c hc).1

theorem Gap.feed_notMem {s : List Char} (h : Gap s) : '\n' ∉ s :=
  fun hmem => (h _ hmem).2 rfl

/-- An item with blanks around it. -/
structure SpacedItem where
  before : List Char
  item : DataItem
  after : List Char
  gap_before : Gap before
  gap_after : Gap after

def SpacedItem.text (i : SpacedItem) : List Char :=
  i.before ++ i.item.text ++ i.after

/-- A line of data: an optional label, the items with commas between them, and an optional
comment. -/
structure DataLine where
  indent : List Char
  label : Option (List Char)
  behindLabel : List Char
  gap : List Char
  items : List SpacedItem
  comment : Option (List Char)
  gap_indent : Gap indent
  gap_behindLabel : Gap behindLabel
  gap_gap : Gap gap
  gap_ne_nil : gap ≠ []
  isIdentifier_label : ∀ name ∈ label, isIdentifier name = true
  feed_notMem_comment : ∀ text ∈ comment, '\n' ∉ text

/-- A line with nothing but a string of so many letters. -/
def DataLine.ofLength (n : Nat) : DataLine where
  indent := []
  label := none
  behindLabel := []
  gap := [' ']
  items := [⟨[], .string '\'' (List.replicate n 'A') rfl
    fun c hc => List.eq_of_mem_replicate hc ▸ ⟨by decide, by decide⟩, [], by decide, by decide⟩]
  comment := none
  gap_indent := by decide
  gap_behindLabel := by decide
  gap_gap := by decide
  gap_ne_nil := by decide
  isIdentifier_label := by decide
  feed_notMem_comment := by decide

/-! ## Reading a line -/

theorem Gap.balanced {p : Char → Prop} {s : List Char} (h : Gap s)
    (hp : ∀ c, isBlank c = true → p c) : Balanced p s :=
  balanced_of_forall fun c hc => ⟨hp c (h c hc).1, isQuote_of_isBlank (h c hc).1⟩

theorem balanced_joined {mark : Char} (hmark : ',' ≠ mark) {texts : List (List Char)}
    (h : ∀ text ∈ texts, Balanced (· ≠ mark) text) : Balanced (· ≠ mark) (joined texts) := by
  induction texts with
  | nil => exact balanced_nil
  | cons text texts ih =>
    obtain ⟨htext, htexts⟩ := List.forall_mem_cons.mp h
    cases texts with
    | nil => rwa [joined, List.intercalate_singleton]
    | cons next texts =>
      have hcomma : Balanced (· ≠ mark) [','] :=
        balanced_of_forall (List.forall_mem_singleton.mpr ⟨hmark, by decide⟩)
      rw [joined, List.intercalate_cons_cons]
      exact (htext.append hcomma).append (ih htexts)

namespace DataLine

/-- The label with its colon and the blanks behind it. -/
def labelText (l : DataLine) : List Char :=
  match l.label with
  | some name => name ++ ':' :: l.behindLabel
  | none => []

def itemsText (l : DataLine) : List Char :=
  joined (l.items.map SpacedItem.text)

def commentText (l : DataLine) : List Char :=
  match l.comment with
  | some text => ';' :: text
  | none => []

/-- The line without its comment. -/
def code (l : DataLine) : List Char :=
  l.indent ++ (l.labelText ++ "DB".toList ++ (l.gap ++ l.itemsText))

def text (l : DataLine) : List Char :=
  l.code ++ l.commentText

/-- The strings and the numbers, one behind the other. -/
def bytes (l : DataLine) : List UInt8 :=
  itemBytes (l.items.map SpacedItem.item)

def statement (l : DataLine) : Statement :=
  ⟨l.label.map fun name => String.ofList (upper name), some .bytes,
    itemTexts (l.items.map SpacedItem.item)⟩

variable (l : DataLine)

theorem balanced_labelText : Balanced (· ≠ ';') l.labelText := by
  rw [labelText]
  split
  case h_2 => exact balanced_nil
  case h_1 name hname =>
    have hplain := isSymbolChar_of_isIdentifier (l.isIdentifier_label name hname)
    refine Balanced.append (t := ':' :: l.behindLabel) (balanced_of_forall fun c hc => ⟨?_, ?_⟩)
      (Balanced.append (s := [':']) (by decide)
        (l.gap_behindLabel.balanced (ne_of_isBlank (by decide))))
    · rintro rfl
      exact absurd (hplain _ hc) (by decide)
    · exact (plain_of_isSymbolChar (hplain c hc)).2.1

theorem balanced_spaced {mark : Char} (hblank : isBlank mark = false)
    (hmark : isSymbolChar mark = false ∧ isQuote mark = false) :
    ∀ text ∈ l.items.map SpacedItem.text, Balanced (· ≠ mark) text := by
  rintro text htext
  obtain ⟨i, -, rfl⟩ := List.mem_map.mp htext
  exact ((i.gap_before.balanced (ne_of_isBlank hblank)).append (i.item.balanced hmark)).append
    (i.gap_after.balanced (ne_of_isBlank hblank))

theorem balanced_code : Balanced (· ≠ ';') l.code := by
  have hname : Balanced (· ≠ ';') "DB".toList := by decide
  have hitems : Balanced (· ≠ ';') l.itemsText :=
    balanced_joined (by decide) (l.balanced_spaced (by decide) (by decide))
  have hblank : ∀ c, isBlank c = true → c ≠ ';' := ne_of_isBlank (by decide)
  exact (l.gap_indent.balanced hblank).append
    ((l.balanced_labelText.append hname).append ((l.gap_gap.balanced hblank).append hitems))

theorem withoutComment_text : withoutComment l.text = l.code := by
  rw [text, commentText]
  split
  case h_1 comment hcomment => exact withoutComment_append l.balanced_code comment
  case h_2 =>
    rw [List.append_nil]
    exact withoutComment_of_outside l.balanced_code.outside

theorem feed_notMem_text : '\n' ∉ l.text := by
  have hlabel : '\n' ∉ l.labelText := by
    rw [labelText]
    split
    case h_2 => exact List.not_mem_nil
    case h_1 name hname =>
      rw [List.mem_append, List.mem_cons]
      rintro (hmem | heq | hmem)
      · exact absurd (isSymbolChar_of_isIdentifier (l.isIdentifier_label name hname) _ hmem)
          (by decide)
      · exact absurd heq (by decide)
      · exact l.gap_behindLabel.feed_notMem hmem
  have hitems : '\n' ∉ l.itemsText := by
    intro hmem
    rcases mem_joined hmem with heq | ⟨text, htext, hmem⟩
    · exact absurd heq (by decide)
    · obtain ⟨i, -, rfl⟩ := List.mem_map.mp htext
      rw [SpacedItem.text, List.mem_append, List.mem_append] at hmem
      rcases hmem with (hmem | hmem) | hmem
      · exact i.gap_before.feed_notMem hmem
      · exact i.item.feed_notMem hmem
      · exact i.gap_after.feed_notMem hmem
  have hcomment : '\n' ∉ l.commentText := by
    rw [commentText]
    split
    case h_2 => exact List.not_mem_nil
    case h_1 comment hcomment =>
      rw [List.mem_cons]
      rintro (heq | hmem)
      · exact absurd heq (by decide)
      · exact l.feed_notMem_comment comment hcomment hmem
  have hname : '\n' ∉ "DB".toList := by decide
  simp only [text, code, List.mem_append, l.gap_indent.feed_notMem, hlabel, hname,
    l.gap_gap.feed_notMem, hitems, hcomment, or_self, not_false_eq_true]

variable {l}

/-- Behind the name of the operation, and blanks, the first item begins with a quote or a digit. -/
theorem exists_itemsText (hsome : l.items ≠ []) :
    ∃ before c rest, l.itemsText = before ++ c :: rest ∧ Blank before ∧
      (isQuote c = true ∨ c.isDigit = true) := by
  obtain ⟨i, items, hitems⟩ := List.exists_cons_of_ne_nil hsome
  obtain ⟨c, rest, htext, hc⟩ := i.item.exists_cons
  have hfirst (texts : List (List Char)) : ∃ more, joined (i.text :: texts) = i.text ++ more := by
    cases texts with
    | nil => exact ⟨[], by rw [joined, List.intercalate_singleton, List.append_nil]⟩
    | cons next texts =>
      exact ⟨_, by rw [joined, List.intercalate_cons_cons, List.append_assoc]⟩
  obtain ⟨more, hmore⟩ := hfirst (items.map SpacedItem.text)
  refine ⟨i.before, c, rest ++ i.after ++ more, ?_, i.gap_before.blank, hc⟩
  rw [itemsText, hitems, List.map_cons, hmore, SpacedItem.text, htext]
  simp

theorem isBlank_of_first {c : Char} (h : isQuote c = true ∨ c.isDigit = true) :
    isBlank c = false := by
  rcases h with hquote | hdigit
  · rw [isQuote, Bool.or_eq_true, decide_eq_true_eq, decide_eq_true_eq] at hquote
    rcases hquote with rfl | rfl <;> decide
  · exact isBlank_of_isDigit hdigit

theorem toUpper_ne_of_first {c : Char} (h : isQuote c = true ∨ c.isDigit = true) :
    c.toUpper ≠ 'E' := by
  have hrange : c.toNat = 39 ∨ c.toNat = 34 ∨ (48 ≤ c.toNat ∧ c.toNat ≤ 57) := by
    rcases h with hquote | hdigit
    · rw [isQuote, Bool.or_eq_true, decide_eq_true_eq, decide_eq_true_eq] at hquote
      rcases hquote with rfl | rfl
      · exact .inl rfl
      · exact .inr (.inl rfl)
    · exact .inr (.inr (toNat_of_isDigit hdigit))
  have hletter : 'E'.toNat = 69 := rfl
  rw [ne_eq, ← Char.toNat_inj, toNat_toUpper]
  split <;> omega

theorem not_blank_operands (hsome : l.items ≠ []) : ¬Blank (l.gap ++ l.itemsText) := by
  obtain ⟨before, c, rest, hitems, -, hc⟩ := exists_itemsText hsome
  intro hblank
  have hfirst := hblank c (by rw [hitems]; simp)
  rw [isBlank_of_first hc] at hfirst
  cases hfirst

/-- The operands are the items, without the blanks around them. -/
theorem splitOperands_items (hsome : l.items ≠ []) :
    splitOperands (trimEnd (l.gap ++ l.itemsText)) = l.statement.operands := by
  obtain ⟨after, hafter, hparts⟩ := exists_blank_trimEnd (l.gap ++ l.itemsText)
  have hnot : ¬Blank (trimEnd (l.gap ++ l.itemsText)) := by
    intro hblank
    exact not_blank_operands hsome (hparts ▸ hblank.append hafter)
  have htexts : l.items.map SpacedItem.text ≠ [] := by
    rw [ne_eq, List.map_eq_nil_iff]
    exact hsome
  have htrim : ∀ i ∈ l.items, trim i.text = i.item.text := fun i _ =>
    i.gap_before.blank.trim_append i.gap_after.blank i.item.tight
  rw [splitOperands_of_not_blank hnot, ← splitOperandsFrom_append_blank hafter, ← hparts,
    splitOperandsFrom_blank_append l.gap_gap.blank, itemsText,
    splitOperandsFrom_joined htexts (l.balanced_spaced (by decide) (by decide)), statement,
    itemTexts, List.map_map, List.map_map]
  exact List.map_congr_left htrim

/-- Behind the label stand the name of the operation and the items. -/
theorem readOperation_items (hsome : l.items ≠ []) {before : List Char} (hbefore : Blank before)
    (label : Option String) :
    Statement.readOperation label (before ++ "DB".toList ++ trimEnd (l.gap ++ l.itemsText)) =
      .ok ⟨label, some .bytes, l.statement.operands⟩ := by
  obtain ⟨front, c, rest, hitems, hfront, hc⟩ := exists_itemsText hsome
  have hcblank := isBlank_of_first hc
  have hend : trimEnd (l.gap ++ l.itemsText) = l.gap ++ front ++ c :: trimEnd rest := by
    rw [hitems, ← List.append_assoc, trimEnd_append_cons hcblank]
  have hfirst : splitWord (before ++ "DB".toList ++ trimEnd (l.gap ++ l.itemsText)) =
      ("DB".toList, trimEnd (l.gap ++ l.itemsText)) := by
    rw [List.append_assoc, splitWord_blank_append hbefore]
    refine splitWord_append (by decide) (by decide) ?_
    obtain ⟨g, gap, hgap⟩ := List.exists_cons_of_ne_nil l.gap_ne_nil
    rw [hend, hgap]
    intro d hd
    obtain rfl := Option.some.inj hd
    exact l.gap_gap.blank g (hgap ▸ List.mem_cons_self)
  have hequ : upper (splitWord (trimEnd (l.gap ++ l.itemsText))).1 ≠ ['E', 'Q', 'U'] := by
    have hstart : trimStart (c :: trimEnd rest) = c :: trimEnd rest := by
      refine trimStart_of_head? fun d hd => ?_
      exact Option.some.inj hd ▸ hcblank
    have hnot : (!isBlank c) = true := by rw [hcblank, Bool.not_false]
    rw [hend, splitWord_blank_append (l.gap_gap.blank.append hfront), splitWord, hstart,
      List.span_eq_takeWhile_dropWhile,
      List.takeWhile_cons_of_pos (p := fun c => !isBlank c) hnot, upper, List.map_cons]
    exact fun heq => toUpper_ne_of_first hc (List.cons.inj heq).1
  rw [Statement.readOperation, hfirst]
  dsimp only
  rw [if_neg (by decide), if_neg fun hboth => hequ hboth.2, splitOperands_items hsome]
  rfl

theorem trim_code (l : DataLine) :
    trim l.code = l.labelText ++ "DB".toList ++ trimEnd (l.gap ++ l.itemsText) := by
  have hfirst : ∀ c ∈ (l.labelText ++ "DB".toList ++ (l.gap ++ l.itemsText)).head?,
      isBlank c = false := by
    rw [labelText]
    split
    case h_2 =>
      intro c hc
      obtain rfl := Option.some.inj hc
      decide
    case h_1 name hname =>
      have hidentifier := l.isIdentifier_label name hname
      obtain ⟨first, more, rfl⟩ :=
        List.exists_cons_of_ne_nil (isName_of_isIdentifier hidentifier).ne_nil
      intro c hc
      obtain rfl := Option.some.inj hc
      exact (plain_of_isSymbolChar
        (isSymbolChar_of_isIdentifier hidentifier first List.mem_cons_self)).2.2
  have hend : l.labelText ++ "DB".toList ++ (l.gap ++ l.itemsText) =
      (l.labelText ++ ['D']) ++ 'B' :: (l.gap ++ l.itemsText) := by
    simp
  rw [code, trim, l.gap_indent.blank.trimStart_append, trimStart_of_head? hfirst, hend,
    trimEnd_append_cons (by decide)]
  simp

/-- Whatever the strings hold, the line is read as its items. -/
theorem read_text (hsome : l.items ≠ []) : Statement.read l.text = .ok (some l.statement) := by
  have hcode : ¬(trim l.code).isEmpty = true := by
    rw [trim_code, List.isEmpty_iff]
    simp
  rw [Statement.read, withoutComment_text, if_neg hcode, trim_code, labelText]
  cases hlabel : l.label with
  | none =>
    obtain ⟨g, gap, hgap⟩ := List.exists_cons_of_ne_nil l.gap_ne_nil
    obtain ⟨front, c, rest, hitems, -, hc⟩ := exists_itemsText hsome
    have hmore : trimEnd (l.gap ++ l.itemsText) = g :: (gap ++ front ++ c :: trimEnd rest) := by
      rw [hitems, ← List.append_assoc, trimEnd_append_cons (isBlank_of_first hc), hgap]
      rfl
    have hnone : labelPart? ("DB".toList ++ trimEnd (l.gap ++ l.itemsText)) = none := by
      rw [hmore]
      exact labelPart?_of_blank (by decide) (l.gap_gap.blank g (hgap ▸ List.mem_cons_self)) _
    have hread := readOperation_items hsome blank_nil none
    rw [List.nil_append] at hread
    dsimp only
    rw [List.nil_append, hnone]
    dsimp only
    rw [hread]
    simp only [bind, Except.bind, statement, hlabel, Option.map_none]
  | some name =>
    have hname := l.isIdentifier_label name hlabel
    have hread := readOperation_items hsome l.gap_behindLabel.blank
      (some (String.ofList (upper name)))
    dsimp only
    rw [List.append_assoc, List.append_assoc, List.cons_append,
      labelPart?_of_isIdentifier hname]
    dsimp only
    rw [labelOf, if_pos hname]
    rw [List.append_assoc] at hread
    simp only [bind, Except.bind, hread, statement, hlabel, Option.map_some]

/-! ## Assembling a line -/

theorem isEmpty_operands (hsome : l.items ≠ []) : ¬l.statement.operands.isEmpty = true := by
  rw [List.isEmpty_iff, statement, itemTexts, List.map_eq_nil_iff, List.map_eq_nil_iff]
  exact hsome

/-- The sizing pass finds nothing wrong with a line whose label is new and for whose data it makes
room. -/
theorem sizes_of_bytes (hsome : l.items ≠ []) {s : Sizing}
    (hbytes : ∀ labelled : Sizing, labelled.cursor = s.cursor →
      (labelled.bytes l.statement.operands).2 = none)
    (hnew : ∀ name ∈ l.statement.label, s.symbols.contains name = false) :
    (s.statement l.statement).2 = none := by
  have hoperation (labelled : Sizing) (hcursor : labelled.cursor = s.cursor) :
      (labelled.operation s.cursor.here l.statement .bytes).2 = none := by
    rw [Sizing.operation, if_neg (isEmpty_operands hsome), hbytes labelled hcursor]
  rw [Sizing.statement]
  cases hlabel : l.label with
  | none =>
    simp only [statement, hlabel, Option.map_none]
    exact hoperation s rfl
  | some name =>
    have hname := hnew (String.ofList (upper name)) (by rw [statement, hlabel]; rfl)
    simp only [statement, hlabel, Option.map_some, Sizing.define, hname]
    exact hoperation _ rfl

theorem sizes (hsome : l.items ≠ []) {s : Sizing}
    (hfits : s.cursor.address.toNat + l.bytes.length ≤ 65536)
    (hnew : ∀ name ∈ l.statement.label, s.symbols.contains name = false) :
    (s.statement l.statement).2 = none := by
  refine sizes_of_bytes hsome (fun labelled hcursor => ?_) hnew
  rw [statement, Sizing.bytes_itemTexts (hcursor ▸ hfits)]

theorem emits_of_bytes (hsome : l.items ≠ []) {symbols : Symbols} {s s' : Emission}
    (hbytes : s.bytes symbols s.cursor.here l.statement.operands = (s', none)) :
    Emission.statement symbols s l.statement = (s', none) := by
  have hoperation : s.operation symbols s.cursor.here l.statement .bytes = (s', none) := by
    rw [Emission.operation, if_neg (isEmpty_operands hsome), hbytes]
  exact hoperation

theorem emits (hsome : l.items ≠ []) (symbols : Symbols) {s : Emission}
    (hfits : s.cursor.address.toNat + l.bytes.length ≤ 65536) :
    Emission.statement symbols s l.statement = (s.appended l.bytes, none) :=
  emits_of_bytes hsome (Emission.bytes_itemTexts hfits)

theorem read_source (hsome : l.items ≠ []) :
    Source.read l.text = ⟨[(1, l.statement)], []⟩ := by
  have htext : l.text ≠ [] := by
    rw [text, code]
    simp
  have hend : l.statement.operation ≠ some .finish := by
    change some Operation.bytes ≠ some .finish
    decide
  rw [Source.read, lines_of_notMem l.feed_notMem_text htext, Source.readFrom, read_text hsome]
  dsimp only
  rw [if_neg hend]
  rfl

/-- With both passes faultless, the image is the data of the line. -/
theorem ofText_text (hsome : l.items ≠ []) {origin : UInt16}
    (hsized : (Sizing.statement ⟨.start origin, .empty⟩ l.statement).2 = none)
    (hemitted : ∀ symbols, Emission.statement symbols ⟨.start origin, #[]⟩ l.statement =
      (Emission.appended ⟨.start origin, #[]⟩ l.bytes, none)) :
    let a := Assembly.ofText l.text origin
    a.isOk = true ∧ a.origin = origin ∧ a.image.toList = l.bytes := by
  intro a
  have ha := Assembly.ofText_of_faultless (read_source hsome) ⟨hsized, trivial⟩
    ⟨congrArg Prod.snd (hemitted _), trivial⟩
  have hemission (symbols : Symbols) : Assembly.emission symbols origin [(1, l.statement)] =
      Emission.appended ⟨.start origin, #[]⟩ l.bytes := by
    rw [Assembly.emission, pass_state]
    exact congrArg Prod.fst (hemitted symbols)
  dsimp only at ha
  rw [hemission] at ha
  change a = _ at ha
  rw [ha]
  exact ⟨rfl, rfl, Array.toList_appendList⟩

/-- A line of data assembles to its strings and numbers, one behind the other, on its own and
wherever it stands in a source. -/
theorem assembles (l : DataLine) (hsome : l.items ≠ []) (origin : UInt16)
    (hfits : origin.toNat + l.bytes.length ≤ 65536) :
    let a := Assembly.ofText l.text origin
    a.isOk = true ∧ a.origin = origin ∧ a.image.toList = l.bytes ∧
      Statement.read l.text = .ok (some l.statement) ∧
      ∀ symbols (s : Emission), s.cursor.address.toNat + l.bytes.length ≤ 65536 →
        Emission.statement symbols s l.statement = (s.appended l.bytes, none) := by
  intro a
  have hsized := sizes hsome (s := ⟨.start origin, .empty⟩) hfits fun name _ => rfl
  obtain ⟨hok, horigin, himage⟩ := ofText_text hsome hsized fun symbols =>
    emits hsome symbols (s := ⟨.start origin, #[]⟩) hfits
  exact ⟨hok, horigin, himage, read_text hsome, fun symbols s => emits hsome symbols⟩

/-- A line with all the marks of a line in its strings. -/
def greeting : DataLine where
  indent := []
  label := some "msg".toList
  behindLabel := [' ']
  gap := ['\t']
  items := [
    ⟨[], .string '\'' "A;B, \"C\": DB -1".toList (by decide)
        fun c hc => ⟨ne_of_mem_of_not_mem hc (by decide), ne_of_mem_of_not_mem hc (by decide)⟩,
      [], by decide, by decide⟩,
    ⟨[' '], .string '"' "it's".toList (by decide)
        fun c hc => ⟨ne_of_mem_of_not_mem hc (by decide), ne_of_mem_of_not_mem hc (by decide)⟩,
      [' '], by decide, by decide⟩,
    ⟨[], .number "013".toList 13 (nat?_eq_some_iff.mp (by decide)) (by decide), [' '],
      by decide, by decide⟩]
  comment := some " 'done".toList
  gap_indent := by decide
  gap_behindLabel := by decide
  gap_gap := by decide
  gap_ne_nil := by decide
  isIdentifier_label := by decide
  feed_notMem_comment := by decide

theorem assembles_greeting :
    greeting.items ≠ [] ∧ (0x0100 : UInt16).toNat + greeting.bytes.length ≤ 65536 ∧
      greeting.text = "msg: DB\t'A;B, \"C\": DB -1', \"it's\" ,013 ; 'done".toList ∧
      (Assembly.ofText greeting.text 0x0100).image.toList =
        Utf8.encode "A;B, \"C\": DB -1it's\r".toList := by
  have hsome : greeting.items ≠ [] := List.cons_ne_nil _ _
  have hfits : (0x0100 : UInt16).toNat + greeting.bytes.length ≤ 65536 := by decide +kernel
  have hbytes : greeting.bytes = Utf8.encode "A;B, \"C\": DB -1it's\r".toList := by decide +kernel
  exact ⟨hsome, hfits, by decide +kernel, hbytes ▸ (greeting.assembles hsome 0x0100 hfits).2.2.1⟩

/-- A line of data without items. -/
def bare : DataLine where
  indent := []
  label := none
  behindLabel := []
  gap := [' ']
  items := []
  comment := none
  gap_indent := by decide
  gap_behindLabel := by decide
  gap_gap := by decide
  gap_ne_nil := by decide
  isIdentifier_label := by decide
  feed_notMem_comment := by decide

/-- A line without items does not assemble to nothing: an operand is missing. -/
theorem missingOperand_bare :
    bare.text = "DB ".toList ∧ bare.bytes = [] ∧
      (Assembly.ofText bare.text 0x0100).isOk = false ∧
      (Assembly.ofText bare.text 0x0100).diagnostics = [⟨1, .missingOperand "DB"⟩] := by
  decide +kernel

end DataLine

end Cpm80.Assembler
