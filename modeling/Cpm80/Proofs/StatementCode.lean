import Cpm80.Proofs.OperandTerms
import Cpm80.Proofs.SourceTable
import Cpm80.Proofs.TwoPasses
import Mathlib.Data.List.Forall2

/-!
# What statements stand for in the image

The bytes of a statement, said without the passes: from the values of its operands, the origin and
the number of bytes in front of it. They are determined by the statement, since of the opcodes with
a mnemonic only one takes given operands. In a source without faults every statement emits the
bytes for which it stands, unless the counter has gone round over a string that is too long for it,
so the image is these bytes one behind the other. A value is
taken modulo its width. For an operand that is what two's complement means, but a negative count
of bytes to reserve turns into a large one.
-/
namespace Cpm80.Assembler

open Text

variable {symbols : Symbols} {here : UInt16} {operand : List Char} {operands : List (List Char)}
  {form : OperandForm} {forms : List OperandForm} {mnemonic : String} {v w : Int}
  {code other : List UInt8}

/-! ## Values -/

/-- The lowest bytes of a value, the lowest one first. -/
def littleEndian : Nat → Int → List UInt8
  | 0, _ => []
  | width + 1, v => UInt8.ofNat (v % 256).toNat :: littleEndian width (v / 256)

/-- The word for which a value stands. -/
def wordOf (v : Int) : UInt16 :=
  UInt16.ofNat (v % 65536).toNat

theorem toNat_wordOf (v : Int) : (wordOf v).toNat = (v % 65536).toNat := by
  rw [wordOf, UInt16.toNat_ofNat']
  omega

/-- A word, its low byte first. -/
theorem littleEndian_two (v : Int) :
    littleEndian 2 v = [lowByte (wordOf v), highByte (wordOf v)] := by
  have hlow : UInt8.ofNat (v % 256).toNat = lowByte (wordOf v) := by
    apply UInt8.toNat_inj.mp
    rw [toNat_lowByte, UInt8.toNat_ofNat', toNat_wordOf]
    omega
  have hhigh : UInt8.ofNat (v / 256 % 256).toNat = highByte (wordOf v) := by
    apply UInt8.toNat_inj.mp
    rw [toNat_highByte, UInt8.toNat_ofNat', toNat_wordOf]
    omega
  rw [littleEndian, littleEndian, littleEndian, hlow, hhigh]

/-- An operand has a value that fits so many bytes, with or without a sign. -/
structure HasValue (symbols : Symbols) (here : UInt16) (width : Nat) (operand : List Char)
    (v : Int) : Prop where
  evaluate_eq : evaluate symbols here operand = .ok v
  fits : -(256 ^ width / 2) ≤ v ∧ v < 256 ^ width

theorem HasValue.unique {width width' : Nat} (h : HasValue symbols here width operand v)
    (h' : HasValue symbols here width' operand w) : v = w :=
  Except.ok.inj (h.evaluate_eq.symm.trans h'.evaluate_eq)

theorem exists_hasValue_of_byteValue {b : UInt8} (h : byteValue symbols here operand = .ok b) :
    ∃ v, HasValue symbols here 1 operand v ∧ [b] = littleEndian 1 v := by
  obtain ⟨v, hv, h⟩ := bind_eq_ok.mp h
  split at h
  case isTrue hfits =>
    cases h
    exact ⟨v, ⟨hv, by omega⟩, rfl⟩
  case isFalse => cases h

theorem exists_hasValue_of_wordValue {x : UInt16} (h : wordValue symbols here operand = .ok x) :
    ∃ v, HasValue symbols here 2 operand v ∧ x = wordOf v := by
  obtain ⟨v, hv, h⟩ := bind_eq_ok.mp h
  split at h
  case isTrue hfits =>
    cases h
    exact ⟨v, ⟨hv, by omega⟩, rfl⟩
  case isFalse => cases h

/-! ## Instructions -/

/-- What an operand adds to the opcode in the place of an operand form. Registers and the numbers of
restarts are part of the opcode. -/
inductive FormCode (symbols : Symbols) (here : UInt16) (operand : List Char) :
    OperandForm → List UInt8 → Prop
  | named {register : String} (h : String.ofList (upper operand) = register) :
    FormCode symbols here operand (.named register) []
  | vector {n : Fin 8} (hregister : isRegister operand = false)
    (h : evaluate symbols here operand = .ok n.val) : FormCode symbols here operand (.vector n) []
  | value {form : OperandForm} {v : Int} (hwidth : 0 < form.width)
    (hregister : isRegister operand = false) (h : HasValue symbols here form.width operand v) :
    FormCode symbols here operand form (littleEndian form.width v)

/-- What operands add to the opcode, each in the place of its form. -/
inductive FormsCode (symbols : Symbols) (here : UInt16) :
    List OperandForm → List (List Char) → List UInt8 → Prop
  | nil : FormsCode symbols here [] [] []
  | cons {form : OperandForm} {forms : List OperandForm} {operand : List Char}
    {operands : List (List Char)} {front back : List UInt8}
    (h : FormCode symbols here operand form front)
    (hrest : FormsCode symbols here forms operands back) :
    FormsCode symbols here (form :: forms) (operand :: operands) (front ++ back)

/-- An instruction stands for its opcode and what its operands add to that. -/
inductive InstructionCode (symbols : Symbols) (here : UInt16) (mnemonic : String)
    (operands : List (List Char)) : List UInt8 → Prop
  | mk {opcode : UInt8} {back : List UInt8} (hdefined : (Instruction.ofOpcode opcode).isDefined)
    (hmnemonic : (Instruction.ofOpcode opcode).mnemonic = mnemonic)
    (hback : FormsCode symbols here (Instruction.ofOpcode opcode).operands operands back)
    (hsize : (opcode :: back).length = (Instruction.ofOpcode opcode).size) :
    InstructionCode symbols here mnemonic operands (opcode :: back)

theorem formCode_of_encodeOperand
    (h : encodeOperand symbols here form operand = .ok (some code)) :
    FormCode symbols here operand form code := by
  cases form with
  | named register =>
    rw [encodeOperand] at h
    split at h
    case isTrue hname =>
      cases h
      exact .named hname
    case isFalse => cases h
  | vector n =>
    rw [encodeOperand] at h
    split at h
    case isTrue => cases h
    case isFalse hregister =>
      obtain ⟨v, hv, h⟩ := bind_eq_ok.mp h
      split at h
      case isTrue hvalue =>
        cases h
        exact .vector (Bool.eq_false_iff.mpr hregister) (hvalue ▸ hv)
      case isFalse => cases h
  | data8 =>
    rw [encodeOperand] at h
    split at h
    case isTrue => cases h
    case isFalse hregister =>
      obtain ⟨b, hb, h⟩ := bind_eq_ok.mp h
      cases h
      obtain ⟨v, hv, hcode⟩ := exists_hasValue_of_byteValue hb
      rw [hcode]
      exact .value Nat.zero_lt_one (Bool.eq_false_iff.mpr hregister) hv
  | data16 | address =>
    rw [encodeOperand] at h
    split at h
    case isTrue => cases h
    case isFalse hregister =>
      obtain ⟨x, hx, h⟩ := bind_eq_ok.mp h
      cases h
      obtain ⟨v, hv, rfl⟩ := exists_hasValue_of_wordValue hx
      rw [← littleEndian_two]
      exact .value Nat.zero_lt_two (Bool.eq_false_iff.mpr hregister) hv

theorem formsCode_of_encodeOperands
    (h : encodeOperands symbols here forms operands = .ok (some code)) :
    FormsCode symbols here forms operands code := by
  induction forms generalizing operands code with
  | nil =>
    cases operands with
    | nil =>
      cases h
      exact .nil
    | cons operand operands => cases h
  | cons form forms ih =>
    cases operands with
    | nil => cases h
    | cons operand operands =>
      rw [encodeOperands, bind_eq_ok] at h
      obtain ⟨front?, hfront, h⟩ := h
      cases front? with
      | none => cases h
      | some front =>
        obtain ⟨back?, hback, h⟩ := bind_eq_ok.mp h
        cases back? with
        | none => cases h
        | some back =>
          cases h
          exact .cons (formCode_of_encodeOperand hfront) (ih hback)

theorem instructionCode_of_encode (h : encode symbols here mnemonic operands = .ok code) :
    InstructionCode symbols here mnemonic operands code := by
  rw [encode] at h
  split at h
  case h_1 => cases h
  case h_2 =>
    obtain ⟨opcode, hmem, hwith⟩ := exists_encodeWith h
    obtain ⟨hdefined, hmnemonic⟩ := Instruction.mem_withMnemonic.mp hmem
    have hsize := length_encodeWith hwith
    rw [encodeWith] at hwith
    split at hwith
    case isTrue =>
      obtain ⟨back?, hback, hwith⟩ := bind_eq_ok.mp hwith
      cases back? with
      | none => cases hwith
      | some back =>
        cases hwith
        exact .mk hdefined hmnemonic (formsCode_of_encodeOperands hback) hsize
    case isFalse => cases hwith

theorem FormCode.unique (h : FormCode symbols here operand form code)
    (h' : FormCode symbols here operand form other) : code = other := by
  cases h with
  | named hname =>
    cases h' with
    | named => rfl
    | value hwidth => exact absurd hwidth (Nat.lt_irrefl 0)
  | vector hregister hvector =>
    cases h' with
    | vector => rfl
    | value hwidth => exact absurd hwidth (Nat.lt_irrefl 0)
  | value hwidth hregister hv =>
    cases h' with
    | named | vector => exact absurd hwidth (Nat.lt_irrefl 0)
    | value _ _ hw => rw [hv.unique hw]

theorem FormsCode.unique (h : FormsCode symbols here forms operands code)
    (h' : FormsCode symbols here forms operands other) : code = other := by
  induction h generalizing other with
  | nil =>
    cases h'
    rfl
  | cons hfirst hrest ih =>
    cases h' with
    | cons hfirst' hrest' => rw [hfirst.unique hfirst', ih hrest']

theorem FormCode.upper_eq {register : String}
    (h : FormCode symbols here operand (.named register) code) :
    String.ofList (upper operand) = register := by
  cases h with
  | named h => exact h
  | value hwidth => exact absurd hwidth (Nat.lt_irrefl 0)

theorem FormCode.evaluate_eq {n : Fin 8} (h : FormCode symbols here operand (.vector n) code) :
    evaluate symbols here operand = .ok n.val := by
  cases h with
  | vector hregister h => exact h
  | value hwidth => exact absurd hwidth (Nat.lt_irrefl 0)

/-- Operands do not fit forms that part at a register or at a restart number. -/
theorem FormsCode.false_of_differ {others : List OperandForm}
    (hdiffer : Instruction.Differ forms others)
    (h : FormsCode symbols here forms operands code)
    (h' : FormsCode symbols here others operands other) : False := by
  induction hdiffer generalizing operands code other with
  | named hne =>
    obtain _ | ⟨hfirst, -⟩ := h
    obtain _ | ⟨hfirst', -⟩ := h'
    exact hne (hfirst.upper_eq.symm.trans hfirst'.upper_eq)
  | @vector m n hne =>
    obtain _ | ⟨hfirst, -⟩ := h
    obtain _ | ⟨hfirst', -⟩ := h'
    have hvalue : (m.val : Int) = n.val :=
      Except.ok.inj (hfirst.evaluate_eq.symm.trans hfirst'.evaluate_eq)
    exact hne (Fin.ext (Int.ofNat.inj hvalue))
  | tail r hdiffer ih =>
    obtain _ | ⟨-, hrest⟩ := h
    obtain _ | ⟨-, hrest'⟩ := h'
    exact ih hrest hrest'

theorem InstructionCode.unique (h : InstructionCode symbols here mnemonic operands code)
    (h' : InstructionCode symbols here mnemonic operands other) : code = other := by
  cases h with
  | @mk opcode back hdefined hmnemonic hback =>
    cases h' with
    | @mk opcode' back' hdefined' hmnemonic' hback' =>
      by_cases hsame : opcode' = opcode
      · subst hsame
        rw [hback.unique hback']
      · have hdiffer := Instruction.differ_of_mnemonic_eq hdefined hdefined'
          (hmnemonic'.trans hmnemonic.symm) hsame
        exact (FormsCode.false_of_differ hdiffer hback' hback).elim

/-! ## Data -/

/-- A string stands for its characters, another operand for a byte. -/
inductive ItemCode (symbols : Symbols) (here : UInt16) : List Char → List UInt8 → Prop
  | string {quote : Char} {text : List Char} (hquote : isQuote quote = true)
    (htext : quote ∉ text) : ItemCode symbols here (quote :: text ++ [quote]) (Utf8.encode text)
  | value {operand : List Char} {v : Int} (hplain : quoted? operand = .ok none)
    (h : HasValue symbols here 1 operand v) :
    ItemCode symbols here operand (littleEndian 1 v)

inductive WordCode (symbols : Symbols) (here : UInt16) : List Char → List UInt8 → Prop
  | value {operand : List Char} {v : Int} (h : HasValue symbols here 2 operand v) :
    WordCode symbols here operand (littleEndian 2 v)

theorem exists_quote_of_quoted? {text : List Char} (h : quoted? operand = .ok (some text)) :
    ∃ quote, isQuote quote = true ∧ quote ∉ text ∧ operand = quote :: text ++ [quote] := by
  cases operand with
  | nil => cases h
  | cons quote rest =>
    by_cases hquote : isQuote quote = true
    · obtain ⟨rfl, htext⟩ := (quoted?_eq_some_iff hquote).mp h
      exact ⟨quote, hquote, htext, rfl⟩
    · rw [quoted?, if_neg hquote] at h
      cases h

theorem itemCode_of_dataCode (h : dataCode symbols here operand = .ok code) :
    ItemCode symbols here operand code := by
  obtain ⟨text?, htext, h⟩ := bind_eq_ok.mp h
  cases text? with
  | some text =>
    cases h
    obtain ⟨quote, hquote, hnone, rfl⟩ := exists_quote_of_quoted? htext
    exact .string hquote hnone
  | none =>
    obtain ⟨b, hb, h⟩ := bind_eq_ok.mp h
    cases h
    obtain ⟨v, hv, hcode⟩ := exists_hasValue_of_byteValue hb
    rw [hcode]
    exact .value htext hv

theorem ItemCode.string_or_value (h : ItemCode symbols here operand code) :
    (∃ text, quoted? operand = .ok (some text) ∧ code = Utf8.encode text) ∨
      quoted? operand = .ok none ∧
        ∃ v, HasValue symbols here 1 operand v ∧ code = littleEndian 1 v := by
  cases h with
  | @string quote text hquote htext =>
    exact .inl ⟨text, (quoted?_eq_some_iff hquote).mpr ⟨rfl, htext⟩, rfl⟩
  | value hplain hv => exact .inr ⟨hplain, _, hv, rfl⟩

theorem ItemCode.unique (h : ItemCode symbols here operand code)
    (h' : ItemCode symbols here operand other) : code = other := by
  rcases h.string_or_value with ⟨text, htext, rfl⟩ | ⟨hplain, v, hv, rfl⟩
  · rcases h'.string_or_value with ⟨text', htext', rfl⟩ | ⟨hplain', -⟩
    · rw [Option.some.inj (Except.ok.inj (htext.symm.trans htext'))]
    · cases htext.symm.trans hplain'
  · rcases h'.string_or_value with ⟨text', htext', -⟩ | ⟨-, w, hw, rfl⟩
    · cases hplain.symm.trans htext'
    · rw [hv.unique hw]

theorem WordCode.unique (h : WordCode symbols here operand code)
    (h' : WordCode symbols here operand other) : code = other := by
  obtain ⟨hv⟩ := h
  obtain ⟨hw⟩ := h'
  rw [hv.unique hw]

theorem wordCode_of_wordValue {x : UInt16} (h : wordValue symbols here operand = .ok x) :
    WordCode symbols here operand [lowByte x, highByte x] := by
  obtain ⟨v, hv, rfl⟩ := exists_hasValue_of_wordValue h
  rw [← littleEndian_two]
  exact .value hv

/-! ## Statements -/

/-- The address behind so many bytes from the origin on. -/
def addressBehind (origin : UInt16) (size : Nat) : UInt16 :=
  UInt16.ofNat (origin.toNat + size)

/-- There is one operand, and its value fits a word. -/
def HasCount (symbols : Symbols) (here : UInt16) (operands : List (List Char)) (v : Int) : Prop :=
  ∃ operand, operands = [operand] ∧ HasValue symbols here 2 operand v

/-- What an operation stands for behind `size` bytes from the origin on. An `ORG` in front of all
bytes stands for nothing here: it moves the origin. -/
inductive OperationCode (symbols : Symbols) (origin : UInt16) (size : Nat)
    (operands : List (List Char)) : Operation → List UInt8 → Prop
  | finish : OperationCode symbols origin size operands .finish []
  | equate : OperationCode symbols origin size operands .equate []
  | instruction {mnemonic : String} {code : List UInt8}
    (hcode : InstructionCode symbols (addressBehind origin size) mnemonic operands code) :
    OperationCode symbols origin size operands (.instruction mnemonic) code
  | bytes {codes : List (List UInt8)}
    (hcodes : List.Forall₂ (ItemCode symbols (addressBehind origin size)) operands codes) :
    OperationCode symbols origin size operands .bytes codes.flatten
  | words {codes : List (List UInt8)}
    (hcodes : List.Forall₂ (WordCode symbols (addressBehind origin size)) operands codes) :
    OperationCode symbols origin size operands .words codes.flatten
  | space {v : Int} (hv : HasCount symbols (addressBehind origin size) operands v)
    (hsign : 0 ≤ v) :
    OperationCode symbols origin size operands .space (List.replicate v.toNat 0)
  /-- A negative count is taken for the word with the same bits. -/
  | wrapped {v : Int} (hv : HasCount symbols (addressBehind origin size) operands v)
    (hsign : v < 0) :
    OperationCode symbols origin size operands .space (List.replicate (65536 + v).toNat 0)
  /-- Zeros up to the address that is the value. -/
  | gap {v : Int} (hsize : 0 < size)
    (hv : HasCount symbols (addressBehind origin size) operands v)
    (hforward : origin.toNat + size ≤ (wordOf v).toNat) :
    OperationCode symbols origin size operands .origin
      (List.replicate ((wordOf v).toNat - (origin.toNat + size)) 0)

/-- What a statement stands for. A label alone stands for nothing. -/
def StatementCode (symbols : Symbols) (origin : UInt16) (size : Nat) (st : Statement)
    (code : List UInt8) : Prop :=
  match st.operation with
  | none => code = []
  | some op => OperationCode symbols origin size st.operands op code

/-- What the statements of a source stand for, one list of bytes for each, behind `size` bytes from
the origin on; and the origin to which they move the image. -/
inductive Lays (symbols : Symbols) : UInt16 → Nat → List (Nat × Statement) → UInt16 →
    List (List UInt8) → Prop
  | nil (origin : UInt16) (size : Nat) : Lays symbols origin size [] origin []
  | code {origin final : UInt16} {size line : Nat} {st : Statement}
    {rest : List (Nat × Statement)} {code : List UInt8} {codes : List (List UInt8)}
    (h : StatementCode symbols origin size st code)
    (hrest : Lays symbols origin (size + code.length) rest final codes) :
    Lays symbols origin size ((line, st) :: rest) final (code :: codes)
  | moves {origin final : UInt16} {line : Nat} {st : Statement} {v : Int}
    {rest : List (Nat × Statement)} {codes : List (List UInt8)}
    (hop : st.operation = some .origin)
    (hv : HasCount symbols (addressBehind origin 0) st.operands v)
    (hrest : Lays symbols (wordOf v) 0 rest final codes) :
    Lays symbols origin 0 ((line, st) :: rest) final ([] :: codes)

variable {origin final final' : UInt16} {size : Nat} {st : Statement} {op : Operation}
  {statements : List (Nat × Statement)} {codes codes' : List (List UInt8)}

theorem HasCount.unique (h : HasCount symbols here operands v)
    (h' : HasCount symbols here operands w) : v = w := by
  obtain ⟨operand, rfl, hv⟩ := h
  obtain ⟨operand', hoperand', hw⟩ := h'
  obtain rfl := List.singleton_inj.mp hoperand'
  exact hv.unique hw

theorem OperationCode.unique (h : OperationCode symbols origin size operands op code)
    (h' : OperationCode symbols origin size operands op other) : code = other := by
  cases h with
  | finish | equate =>
    cases h'
    rfl
  | instruction hcode =>
    cases h' with
    | instruction hcode' => exact hcode.unique hcode'
  | bytes hcodes =>
    cases h' with
    | bytes hcodes' =>
      have hunique : Relator.RightUnique (ItemCode symbols (addressBehind origin size)) :=
        fun _ _ _ => ItemCode.unique
      rw [List.right_unique_forall₂' hunique hcodes hcodes']
  | words hcodes =>
    cases h' with
    | words hcodes' =>
      have hunique : Relator.RightUnique (WordCode symbols (addressBehind origin size)) :=
        fun _ _ _ => WordCode.unique
      rw [List.right_unique_forall₂' hunique hcodes hcodes']
  | space hv hsign =>
    cases h' with
    | space hw => rw [hv.unique hw]
    | wrapped hw hnegative => exact absurd (hv.unique hw ▸ hnegative) (Int.not_lt.mpr hsign)
  | wrapped hv hnegative =>
    cases h' with
    | space hw hsign => exact absurd (hv.unique hw ▸ hnegative) (Int.not_lt.mpr hsign)
    | wrapped hw => rw [hv.unique hw]
  | gap hsize hv =>
    cases h' with
    | gap hsize' hw => rw [hv.unique hw]

theorem StatementCode.unique (h : StatementCode symbols origin size st code)
    (h' : StatementCode symbols origin size st other) : code = other := by
  cases hop : st.operation with
  | none =>
    rw [StatementCode, hop] at h h'
    exact h.trans h'.symm
  | some op =>
    rw [StatementCode, hop] at h h'
    exact OperationCode.unique h h'

/-- An `ORG` in front of all bytes does nothing but move the origin. -/
theorem StatementCode.false_of_origin (hop : st.operation = some .origin)
    (h : StatementCode symbols origin 0 st code) : False := by
  rw [StatementCode, hop] at h
  cases h with
  | gap hsize => exact Nat.lt_irrefl 0 hsize

/-- What a source stands for is determined by its statements. -/
theorem Lays.unique (h : Lays symbols origin size statements final codes)
    (h' : Lays symbols origin size statements final' codes') :
    final = final' ∧ codes = codes' := by
  induction h generalizing final' codes' with
  | nil =>
    cases h'
    exact ⟨rfl, rfl⟩
  | code hcode hrest ih =>
    cases h' with
    | code hcode' hrest' =>
      obtain rfl := hcode.unique hcode'
      obtain ⟨rfl, rfl⟩ := ih hrest'
      exact ⟨rfl, rfl⟩
    | moves hop => exact (hcode.false_of_origin hop).elim
  | moves hop hv hrest ih =>
    cases h' with
    | code hcode' => exact (hcode'.false_of_origin hop).elim
    | moves hop' hv' hrest' =>
      obtain rfl := hv.unique hv'
      obtain ⟨rfl, rfl⟩ := ih hrest'
      exact ⟨rfl, rfl⟩

/-! ## The emitting pass -/

/-- The cursor and the image of a state that has emitted from the origin on. -/
theorem Emission.Anchored.here_eq {s : Emission} (h : s.Anchored) :
    s.cursor.here = addressBehind s.cursor.origin s.image.size := by
  rw [Cursor.here, addressBehind, ← h.address_eq, UInt16.ofNat_uInt32ToNat]

theorem exists_hasCount {x : UInt16} (h : single op operands >>= wordValue symbols here = .ok x) :
    ∃ v, HasCount symbols here operands v ∧ x = wordOf v := by
  obtain ⟨operand, hoperand, hx⟩ := bind_eq_ok.mp h
  obtain ⟨v, hv, rfl⟩ := exists_hasValue_of_wordValue hx
  have hsingle : operands = [operand] := by
    unfold single at hoperand
    split at hoperand
    case h_1 =>
      cases hoperand
      rfl
    case h_2 => cases hoperand
    case h_3 => cases hoperand
  exact ⟨v, ⟨operand, hsingle, hv⟩, rfl⟩

/-- As many bytes are reserved as the word of the count says. -/
theorem HasCount.operationCode_space
    (h : HasCount symbols (addressBehind origin size) operands v) :
    OperationCode symbols origin size operands .space (List.replicate (wordOf v).toNat 0) := by
  obtain ⟨operand, hoperand, hv⟩ := h
  have hfits := hv.fits
  rw [toNat_wordOf]
  by_cases hsign : 0 ≤ v
  · have hcount : (v % 65536).toNat = v.toNat := by omega
    rw [hcount]
    exact .space ⟨operand, hoperand, hv⟩ hsign
  · have hcount : (v % 65536).toNat = (65536 + v).toNat := by omega
    rw [hcount]
    exact .wrapped ⟨operand, hoperand, hv⟩ (Int.not_le.mp hsign)

/-- An operation without a fault emits what it stands for, or moves the origin. -/
theorem Emission.operation_code {s s' : Emission} (hs : s.Anchored)
    (h : s.operation symbols (addressBehind s.cursor.origin s.image.size) st op = (s', none)) :
    (∃ code, OperationCode symbols s.cursor.origin s.image.size st.operands op code ∧
        s' = s.appended code) ∨
      s.image.size = 0 ∧ op = .origin ∧
        ∃ v, HasCount symbols (addressBehind s.cursor.origin s.image.size) st.operands v ∧
          s' = { s with cursor := .start (wordOf v) } := by
  cases op with
  | finish =>
    cases h
    exact .inl ⟨[], .finish, s.appended_nil.symm⟩
  | equate =>
    obtain rfl : s = s' := congrArg Prod.fst h
    exact .inl ⟨[], .equate, s.appended_nil.symm⟩
  | origin =>
    rw [operation] at h
    split at h
    case h_1 => cases h
    case h_2 cursor gap hmoved =>
      cases h
      obtain ⟨x, hx, hmoved⟩ := bind_eq_ok.mp hmoved
      obtain ⟨v, hv, rfl⟩ := exists_hasCount hx
      have haddress := hs.address_eq
      rcases Cursor.moveTo_cases hmoved with ⟨hstart, rfl, rfl⟩ | ⟨hemitted, hend, rfl⟩
      · exact .inr ⟨hs.size_eq_zero hstart, rfl, v, hv, rfl⟩
      · have hsize := hs.size_ne_zero hemitted
        have hgap := OperationCode.gap (by omega) hv (by omega)
        have hcount : (wordOf v).toNat - (s.cursor.origin.toNat + s.image.size) = gap := by omega
        rw [hcount] at hgap
        refine .inl ⟨_, hgap, ?_⟩
        rw [appended, List.length_replicate]
        rfl
  | bytes =>
    rw [operation] at h
    split at h
    case isTrue => cases h
    case isFalse =>
      obtain ⟨codes, hcodes, hlast⟩ := bytes_eq h
      exact .inl ⟨_, .bytes (hcodes.imp fun _ _ => itemCode_of_dataCode), hlast⟩
  | words =>
    rw [operation] at h
    split at h
    case isTrue => cases h
    case isFalse =>
      obtain ⟨ws, hws, hlast⟩ := words_eq h
      have hcodes := List.forall₂_map_right_iff.mpr (hws.imp fun _ _ => wordCode_of_wordValue)
      rw [List.flatMap_def] at hlast
      exact .inl ⟨_, .words hcodes, hlast⟩
  | space =>
    rw [operation] at h
    split at h
    case h_1 => cases h
    case h_2 x hx =>
      obtain ⟨v, hv, rfl⟩ := exists_hasCount hx
      exact .inl ⟨_, hv.operationCode_space, emit_eq h⟩
  | instruction mnemonic =>
    rw [operation] at h
    split at h
    case h_1 => cases h
    case h_2 code hcode =>
      exact .inl ⟨code, .instruction (instructionCode_of_encode hcode), emit_eq h⟩

/-- A statement without a fault emits what it stands for, or moves the origin. -/
theorem Emission.statement_code {s s' : Emission} (hs : s.Anchored)
    (h : statement symbols s st = (s', none)) :
    (∃ code, StatementCode symbols s.cursor.origin s.image.size st code ∧
        s' = s.appended code) ∨
      s.image.size = 0 ∧ st.operation = some .origin ∧
        ∃ v, HasCount symbols (addressBehind s.cursor.origin 0) st.operands v ∧
          s' = { s with cursor := .start (wordOf v) } := by
  cases hop : st.operation with
  | none =>
    rw [statement, hop] at h
    cases h
    exact .inl ⟨[], by rw [StatementCode, hop], s.appended_nil.symm⟩
  | some op =>
    rw [statement, hop, hs.here_eq] at h
    rcases operation_code hs h with ⟨code, hcode, hlast⟩ | ⟨hsize, rfl, v, hv, hlast⟩
    · exact .inl ⟨code, by rwa [StatementCode, hop], hlast⟩
    · exact .inr ⟨hsize, rfl, v, hsize ▸ hv, hlast⟩

/-- A run without faults emits what the statements stand for. -/
theorem Emission.run_lays {s : Emission} (hs : s.Anchored)
    (hcountable : ∀ numbered ∈ statements, numbered.2.IsCountable)
    (h : Faultless (statement symbols) s statements) :
    ∃ codes, Lays symbols s.cursor.origin s.image.size statements
        (stateAfter (statement symbols) s statements).cursor.origin codes ∧
      (stateAfter (statement symbols) s statements).image = s.image ++ codes.flatten := by
  induction statements generalizing s with
  | nil => exact ⟨[], .nil _ _, by simp [stateAfter]⟩
  | cons numbered rest ih =>
    obtain ⟨line, st⟩ := numbered
    obtain ⟨hfirst, hrest⟩ := h
    obtain ⟨hone, hothers⟩ := List.forall_mem_cons.mp hcountable
    have hrun : statement symbols s st = ((statement symbols s st).1, none) := Prod.ext rfl hfirst
    obtain ⟨codes, hlays, himage⟩ := ih (anchored_statement hs hone) hothers hrest
    have hstate : stateAfter (statement symbols) s ((line, st) :: rest) =
        stateAfter (statement symbols) (statement symbols s st).1 rest := rfl
    rw [hstate, himage]
    rcases statement_code hs hrun with ⟨code, hcode, hlast⟩ | ⟨hsize, hop, v, hv, hlast⟩
    · have hsize : (s.appended code).image.size = s.image.size + code.length :=
        size_append s.image code
      rw [hlast] at hlays ⊢
      rw [hsize] at hlays
      refine ⟨code :: codes, .code hcode hlays, ?_⟩
      rw [appended, image_append_append, List.flatten_cons]
    · -- nothing has been emitted yet, so the rest is laid out from the new origin on
      rw [hlast] at hlays ⊢
      rw [hsize] at hlays ⊢
      exact ⟨[] :: codes, .moves hop hv hlays, rfl⟩

end Cpm80.Assembler

namespace Cpm80.Assembly

open Assembler

/-- In a source without faults, and without a string that is too long for the counter, the image is
what the statements stand for, one behind the other. -/
theorem image_eq_flatten {text : List Char} {origin : UInt16} (hok : (ofText text origin).isOk)
    (hcountable : IsCountable text) :
    ∃ codes, Lays (ofText text origin).symbols origin 0 (Source.read text).statements
        (ofText text origin).origin codes ∧
      (ofText text origin).image.toList = codes.flatten ∧
      ∀ final other, Lays (ofText text origin).symbols origin 0 (Source.read text).statements
        final other → other = codes := by
  obtain ⟨-, horigin, himage, -, hcodes⟩ := assembles_of_isOk hok
  obtain ⟨codes, hlays, hflat⟩ :=
    Emission.run_lays (Emission.anchored_start origin) hcountable hcodes
  rw [emission_eq_stateAfter] at horigin himage
  refine ⟨codes, ?_, ?_, fun final other h => (h.unique hlays).2⟩
  · rw [horigin]
    exact hlays
  · rw [himage, hflat, Array.toList_appendList]
    rfl

/-- A source with every kind of statement that emits bytes. -/
def mixedSource : List Char :=
  "start: mvi a,-1\n db 'it',1\n ds 1\n org 108h\n dw start".toList

theorem image_eq_flatten_mixedSource :
    (ofText mixedSource 0x0100).isOk ∧ IsCountable mixedSource ∧
      ∃ codes, Lays (ofText mixedSource 0x0100).symbols 0x0100 0
          (Source.read mixedSource).statements (ofText mixedSource 0x0100).origin codes ∧
        codes.flatten = [0x3E, 0xFF, 0x69, 0x74, 1, 0, 0, 0, 0, 1] := by
  have hok : (ofText mixedSource 0x0100).isOk := by decide +kernel
  have hcountable : IsCountable mixedSource := by decide +kernel
  obtain ⟨codes, hlays, himage, -⟩ := image_eq_flatten hok hcountable
  have hbytes : (ofText mixedSource 0x0100).image.toList =
      [0x3E, 0xFF, 0x69, 0x74, 1, 0, 0, 0, 0, 1] := by
    decide +kernel
  exact ⟨hok, hcountable, codes, hlays, himage.symm.trans hbytes⟩

/-- A request for fewer than no bytes. -/
def negativeSpace : Statement :=
  { operation := some .space, operands := ["-32768".toList] }

/-- A negative count assembles without a fault, and half of the memory is reserved. -/
theorem negativeSpace_assembles :
    Source.read "DS -32768".toList = ⟨[(1, negativeSpace)], []⟩ ∧
      HasCount (ofText "DS -32768".toList 0x0100).symbols 0x0100 negativeSpace.operands (-32768) ∧
      (ofText "DS -32768".toList 0x0100).isOk ∧
      (ofText "DS -32768".toList 0x0100).image = Array.replicate 32768 0 := by
  have hsource : Source.read "DS -32768".toList = ⟨[(1, negativeSpace)], []⟩ := by decide +kernel
  have hevaluate : evaluate .empty 0x0100 "-32768".toList = .ok (-32768) := by decide +kernel
  have hsizes : (Sizing.statement ⟨.start 0x0100, .empty⟩ negativeSpace).2 = none := by
    decide +kernel
  have hsymbols : (sizing 0x0100 [(1, negativeSpace)]).symbols = .empty := rfl
  have hemitted : Emission.statement .empty ⟨.start 0x0100, #[]⟩ negativeSpace =
      (Emission.appended ⟨.start 0x0100, #[]⟩ (List.replicate 32768 0), none) := by
    have hcount : single .space negativeSpace.operands >>= wordValue .empty 0x0100 =
        .ok 32768 := by
      decide +kernel
    have hcode : Emission.operation ⟨.start 0x0100, #[]⟩ .empty 0x0100 negativeSpace .space =
        Emission.emit ⟨.start 0x0100, #[]⟩ (List.replicate 32768 0) := by
      rw [Emission.operation, hcount]
      rfl
    exact hcode.trans (Emission.emit_of_le (by rw [List.length_replicate]; decide))
  have hemission : emission .empty 0x0100 [(1, negativeSpace)] =
      Emission.appended ⟨.start 0x0100, #[]⟩ (List.replicate 32768 0) := by
    rw [emission, pass_state, stateAfter, List.foldl_cons, List.foldl_nil, hemitted]
  have ha := ofText_of_faultless hsource ⟨hsizes, trivial⟩
    ⟨hsymbols ▸ congrArg Prod.snd hemitted, trivial⟩
  rw [hsymbols, hemission] at ha
  rw [ha]
  refine ⟨hsource, ⟨_, rfl, hevaluate, by decide⟩, rfl, ?_⟩
  apply Array.toList_inj.mp
  rw [Array.toList_replicate]
  exact Array.toList_appendList

end Cpm80.Assembly
