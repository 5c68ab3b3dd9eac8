import Cpm80.Proofs.Checked.Bounds
import Cpm80.Proofs.Checked.Source
import Cpm80.Proofs.Encoding
import Cpm80.Proofs.Images

/-!
# Assembling, with every access checked

Both passes cut operands into terms and move a counter of 32 bits. Here each cut and each sum is
checked. A source without a string that is too long for the counter passes every check, and what is
assembled is the assembly of the text. A string with which the counter goes round does not pass.
-/
namespace Cpm80.Assembler.Checked

open Text Cpm80.Checked

/-! ## Values -/

def sumTerms (symbols : Symbols) (here : UInt16) (whole : List Char) (total : Int) :
    List SignedText → Attempt Fault Int
  | [] => pure total
  | t :: rest => do
    let term ← ExceptT.mk (readTerm (trim t.text))
    let value ← Attempt.of (term.value symbols here)
    let sum := if t.negative then total - value else total + value
    if FitsSigned64 sum then sumTerms symbols here whole sum rest
    else throw (.malformedNumber (String.ofList whole))

def evaluate (symbols : Symbols) (here : UInt16) (text : List Char) : Attempt Fault Int :=
  let text := trim text
  if text.isEmpty then throw (.malformedNumber "")
  else do
    let terms ← ExceptT.mk (splitTerms text)
    sumTerms symbols here text 0 terms

def byteValue (symbols : Symbols) (here : UInt16) (text : List Char) : Attempt Fault UInt8 := do
  let v ← evaluate symbols here text
  if -128 ≤ v ∧ v ≤ 255 then pure (UInt8.ofNat (v % 256).toNat) else throw (.outOfRange v 8)

def wordValue (symbols : Symbols) (here : UInt16) (text : List Char) : Attempt Fault UInt16 := do
  let v ← evaluate symbols here text
  if -32768 ≤ v ∧ v ≤ 65535 then pure (UInt16.ofNat (v % 65536).toNat)
  else throw (.outOfRange v 16)

/-- The value of the only operand of a directive. -/
def singleValue (symbols : Symbols) (here : UInt16) (op : Operation)
    (operands : List (List Char)) : Attempt Fault UInt16 := do
  let operand ← Attempt.of (single op operands)
  wordValue symbols here operand

section

variable (symbols : Symbols) (here : UInt16)

theorem sumTerms_eq (whole : List Char) (total : Int) (terms : List SignedText) :
    sumTerms symbols here whole total terms =
      .of (Assembler.sumTerms symbols here whole total terms) := by
  induction terms generalizing total with
  | nil => rfl
  | cons t rest ih =>
    rw [sumTerms, Assembler.sumTerms, readTerm_eq]
    simp only [ih, Attempt.throw_eq, ← apply_ite Attempt.of]
    change (Attempt.of (Term.read (trim t.text)) >>= _) = _
    simp only [Attempt.of_bind]

theorem evaluate_eq (text : List Char) :
    evaluate symbols here text = .of (Assembler.evaluate symbols here text) := by
  rw [evaluate, Assembler.evaluate]
  split
  · rfl
  · simp only [splitTerms_eq, sumTerms_eq]
    cases Assembler.splitTerms (trim text) <;> rfl

theorem byteValue_eq (text : List Char) :
    byteValue symbols here text = .of (Assembler.byteValue symbols here text) := by
  simp only [byteValue, Assembler.byteValue, evaluate_eq, Attempt.pure_eq, Attempt.throw_eq,
    ← apply_ite Attempt.of, Attempt.of_bind]

theorem wordValue_eq (text : List Char) :
    wordValue symbols here text = .of (Assembler.wordValue symbols here text) := by
  simp only [wordValue, Assembler.wordValue, evaluate_eq, Attempt.pure_eq, Attempt.throw_eq,
    ← apply_ite Attempt.of, Attempt.of_bind]

theorem singleValue_eq (op : Operation) (operands : List (List Char)) :
    singleValue symbols here op operands =
      .of (single op operands >>= Assembler.wordValue symbols here) := by
  simp only [singleValue, wordValue_eq, Attempt.of_bind]

end

/-! ## Operands -/

def encodeOperand (symbols : Symbols) (here : UInt16) (form : OperandForm)
    (operand : List Char) : Attempt Fault (Option (List UInt8)) :=
  match form with
  | .named register =>
    pure (if String.ofList (upper operand) = register then some [] else none)
  | .vector n =>
    if isRegister operand then pure none
    else do
      let v ← evaluate symbols here operand
      pure (if v = n.val then some [] else none)
  | .data8 =>
    if isRegister operand then pure none
    else do
      let v ← byteValue symbols here operand
      pure (some [v])
  | .data16 | .address =>
    if isRegister operand then pure none
    else do
      let w ← wordValue symbols here operand
      pure (some [lowByte w, highByte w])

def encodeOperands (symbols : Symbols) (here : UInt16) :
    List OperandForm → List (List Char) → Attempt Fault (Option (List UInt8))
  | [], [] => pure (some [])
  | form :: forms, operand :: operands => do
    match ← encodeOperand symbols here form operand with
    | none => pure none
    | some front =>
      let back ← encodeOperands symbols here forms operands
      pure (back.map (front ++ ·))
  | _, _ => pure none

def encodeWith (symbols : Symbols) (here : UInt16) (operands : List (List Char))
    (opcode : UInt8) : Attempt Fault (Option (List UInt8)) :=
  let forms := (Instruction.ofOpcode opcode).operands
  if forms.length = operands.length then do
    let back ← encodeOperands symbols here forms operands
    pure (back.map (opcode :: ·))
  else pure none

def encodeFirst (symbols : Symbols) (here : UInt16) (mnemonic : String)
    (operands : List (List Char)) : List UInt8 → Attempt Fault (List UInt8)
  | [] => throw (.invalidOperands mnemonic)
  | opcode :: rest => do
    match ← encodeWith symbols here operands opcode with
    | some code => pure code
    | none => encodeFirst symbols here mnemonic operands rest

def encode (symbols : Symbols) (here : UInt16) (mnemonic : String)
    (operands : List (List Char)) : Attempt Fault (List UInt8) :=
  match Instruction.withMnemonic mnemonic with
  | [] => throw (.unknownMnemonic mnemonic)
  | opcodes => encodeFirst symbols here mnemonic operands opcodes

section

variable (symbols : Symbols) (here : UInt16)

theorem encodeOperand_eq (form : OperandForm) (operand : List Char) :
    encodeOperand symbols here form operand =
      .of (Assembler.encodeOperand symbols here form operand) := by
  cases form with
  | named register => rfl
  | vector n | data8 | data16 | address =>
    simp only [encodeOperand, Assembler.encodeOperand, evaluate_eq, byteValue_eq, wordValue_eq,
      Attempt.pure_eq, Attempt.of_bind, ← apply_ite Attempt.of]

theorem encodeOperands_eq (forms : List OperandForm) (operands : List (List Char)) :
    encodeOperands symbols here forms operands =
      .of (Assembler.encodeOperands symbols here forms operands) := by
  induction forms generalizing operands with
  | nil => cases operands <;> rfl
  | cons form forms ih =>
    cases operands with
    | nil => rfl
    | cons operand operands =>
      rw [encodeOperands, Assembler.encodeOperands, encodeOperand_eq]
      rcases Assembler.encodeOperand symbols here form operand with e | _ | front
      · rfl
      · rfl
      · change (encodeOperands symbols here forms operands >>= fun back =>
          Attempt.of (.ok (back.map (front ++ ·)))) = _
        rw [ih, Attempt.of_bind]
        rfl

theorem encodeWith_eq (operands : List (List Char)) (opcode : UInt8) :
    encodeWith symbols here operands opcode =
      .of (Assembler.encodeWith symbols here operands opcode) := by
  simp only [encodeWith, Assembler.encodeWith, encodeOperands_eq, Attempt.pure_eq,
    Attempt.of_bind, ← apply_ite Attempt.of]

theorem encodeFirst_eq (mnemonic : String) (operands : List (List Char)) (opcodes : List UInt8) :
    encodeFirst symbols here mnemonic operands opcodes =
      .of (Assembler.encodeFirst symbols here mnemonic operands opcodes) := by
  induction opcodes with
  | nil => rfl
  | cons opcode rest ih =>
    rw [encodeFirst, Assembler.encodeFirst, encodeWith_eq]
    rcases Assembler.encodeWith symbols here operands opcode with e | _ | code
    · rfl
    · exact ih
    · rfl

theorem encode_eq (mnemonic : String) (operands : List (List Char)) :
    encode symbols here mnemonic operands =
      .of (Assembler.encode symbols here mnemonic operands) := by
  rw [encode, Assembler.encode]
  cases Instruction.withMnemonic mnemonic with
  | nil => rfl
  | cons opcode rest => exact encodeFirst_eq symbols here mnemonic operands (opcode :: rest)

end

/-! ## The counter -/

/-- A counter between the origin and the end of memory. -/
structure Inside (c : Cursor) : Prop where
  origin_le : c.origin.toNat ≤ c.address.toNat
  le_end : c.address.toNat ≤ 65536

/-- The count is cut to 32 bits, the sum is checked. -/
def advance (c : Cursor) (count : Nat) : Attempt Fault Cursor := do
  let last ← add? 32 c.address.toNat (count % 2 ^ 32)
  if last ≤ 65536 then pure { c with address := UInt32.ofNat last } else throw .addressOverflow

def moveTo (c : Cursor) (address : UInt16) : Attempt Fault (Cursor × Nat) := do
  let emitted ← sub? c.address.toNat c.origin.toNat
  if emitted = 0 then pure (.start address, 0)
  else if address.toNat < c.address.toNat then throw (.originBackwards address)
  else
    let gap ← sub? address.toNat c.address.toNat
    let c ← advance c gap
    pure (c, gap)

/-- Moves to the address that the only operand of a directive gives. -/
def moveToValue (c : Cursor) (symbols : Symbols) (here : UInt16) (op : Operation)
    (operands : List (List Char)) : Attempt Fault (Cursor × Nat) := do
  let address ← singleValue symbols here op operands
  moveTo c address

section

variable {c c' : Cursor}

theorem inside_start (origin : UInt16) : Inside (.start origin) where
  origin_le := Nat.le_of_eq origin.toNat_toUInt32.symm
  le_end := Nat.le_trans (Nat.le_of_eq origin.toNat_toUInt32) (Nat.le_of_lt origin.toNat_lt)

theorem Inside.advance {count : Nat} (h : Inside c) (hcount : count < maxMove)
    (hmoved : c.advance count = .ok c') : Inside c' where
  origin_le := by
    rw [Cursor.toNat_address_advance hmoved h.le_end hcount, (Cursor.advance_eq_ok hmoved).1]
    exact Nat.le_add_right_of_le h.origin_le
  le_end := (Cursor.advance_eq_ok hmoved).2

theorem Inside.moveTo {address : UInt16} {gap : Nat} (h : Inside c)
    (hmoved : c.moveTo address = .ok (c', gap)) : Inside c' := by
  rcases Cursor.moveTo_cases hmoved with ⟨-, -, rfl⟩ | ⟨-, hend, rfl⟩
  · exact inside_start address
  · have hlt := address.toNat_lt
    have horigin := h.origin_le
    refine ⟨?_, Cursor.moveTo_le hmoved⟩
    rw [Cursor.toNat_address_over_of_le (by omega)]
    exact Nat.le_add_right_of_le horigin

theorem advance_eq {count : Nat} (h : Inside c) (hcount : count < maxMove) :
    advance c count = .of (c.advance count) := by
  have hend := h.le_end
  rw [maxMove] at hcount
  have hcut : count % 2 ^ 32 = count := Nat.mod_eq_of_lt (by omega)
  have hsum : c.address.toNat + count < 2 ^ 32 := by omega
  have hcursor : { c with address := UInt32.ofNat (c.address.toNat + count) } =
      c.after (.over count) := by
    rw [UInt32.ofNat_add, UInt32.ofNat_toNat, Cursor.after]
  rw [advance, Cursor.advance_eq, hcut, add?_of_lt hsum, Attempt.lift_eq, Attempt.of_ok_bind,
    Nat.mod_eq_of_lt hsum, hcursor, apply_ite Attempt.of]
  rfl

theorem moveTo_eq (h : Inside c) (address : UInt16) :
    moveTo c address = .of (c.moveTo address) := by
  have haddress := address.toNat_lt
  have hemitted : c.address.toNat - c.origin.toNat = 0 ↔ c.address = c.origin.toUInt32 := by
    have horigin := h.origin_le
    rw [← UInt32.toNat_inj, UInt16.toNat_toUInt32]
    omega
  rw [moveTo, Cursor.moveTo, sub?_of_le h.origin_le, Attempt.lift_eq, Attempt.of_ok_bind]
  simp only [hemitted, UInt32.lt_iff_toNat_lt, UInt16.toNat_toUInt32]
  split
  · rfl
  · split
    · rfl
    case isFalse hforward =>
      have hle : c.address.toNat ≤ address.toNat := Nat.le_of_not_lt hforward
      have hgap : (address.toUInt32 - c.address).toNat = address.toNat - c.address.toNat := by
        rw [UInt32.toNat_sub_of_le, UInt16.toNat_toUInt32]
        rwa [UInt32.le_iff_toNat_le, UInt16.toNat_toUInt32]
      have hcount : address.toNat - c.address.toNat < maxMove := by
        rw [maxMove]
        omega
      rw [sub?_of_le hle, Attempt.lift_eq, Attempt.of_ok_bind, advance_eq h hcount, hgap]
      cases c.advance (address.toNat - c.address.toNat) <;> rfl

theorem moveToValue_eq (h : Inside c) (symbols : Symbols) (here : UInt16) (op : Operation)
    (operands : List (List Char)) :
    moveToValue c symbols here op operands =
      .of (single op operands >>= Assembler.wordValue symbols here >>= c.moveTo) := by
  simp only [moveToValue, singleValue_eq, moveTo_eq h, Attempt.of_bind]

/-- Whatever the operand was, the counter stays inside. -/
theorem Inside.moveToValue {symbols : Symbols} {here : UInt16} {op : Operation}
    {operands : List (List Char)} {gap : Nat} (h : Inside c)
    (hmoved : single op operands >>= Assembler.wordValue symbols here >>= c.moveTo =
      .ok (c', gap)) : Inside c' := by
  obtain ⟨address, -, hmoved⟩ := bind_eq_ok.mp hmoved
  exact h.moveTo hmoved

end

/-! ## Statements -/

/-- A checked step gives the outcome, in whose state a property holds. -/
structure Gives {σ : Type} (p : σ → Prop) (checked : Option (Outcome σ)) (outcome : Outcome σ) :
    Prop where
  eq : checked = some outcome
  keeps : p outcome.1

namespace Gives

variable {σ : Type} {p : σ → Prop} {s : σ} {checked : Option (Outcome σ)} {outcome : Outcome σ}

theorem of_done (h : p s) (e : Option Fault) : Gives p (some (s, e)) (s, e) :=
  ⟨rfl, h⟩

end Gives

namespace Sizing

def advance (s : Sizing) (count : Nat) : Option (Outcome Sizing) := do
  match ← (Checked.advance s.cursor count).run with
  | .ok cursor => some ({ s with cursor }, none)
  | .error e => some (s, some e)

def bytes (s : Sizing) : List (List Char) → Option (Outcome Sizing)
  | [] => some (s, none)
  | operand :: rest => do
    match ← quoted? operand with
    | .error e => some (s, some e)
    | .ok text =>
      let count := match text with
        | some text => size text
        | none => 1
      match ← advance s count with
      | (s, none) => bytes s rest
      | (s, some e) => some (s, some e)

def words (s : Sizing) : List (List Char) → Option (Outcome Sizing)
  | [] => some (s, none)
  | _ :: rest => do
    match ← advance s 2 with
    | (s, none) => words s rest
    | (s, some e) => some (s, some e)

def operation (s : Sizing) (here : UInt16) (st : Statement) (op : Operation) :
    Option (Outcome Sizing) :=
  match op with
  | .finish => some (s, none)
  | .equate =>
    match st.label with
    | none => some (s, some .missingLabel)
    | some name => do
      match ← (singleValue s.symbols here op st.operands).run with
      | .error e => some (s, some e)
      | .ok value => some (s.define name value)
  | .origin => do
    match ← (moveToValue s.cursor s.symbols here op st.operands).run with
    | .error e => some (s, some e)
    | .ok (cursor, _) => some ({ s with cursor }, none)
  | .bytes =>
    if st.operands.isEmpty then some (s, some (.missingOperand op.mnemonic))
    else bytes s st.operands
  | .words =>
    if st.operands.isEmpty then some (s, some (.missingOperand op.mnemonic))
    else words s st.operands
  | .space => do
    match ← (singleValue s.symbols here op st.operands).run with
    | .error e => some (s, some e)
    | .ok count => advance s count.toNat
  | .instruction mnemonic =>
    match Instruction.withMnemonic mnemonic with
    | [] => some (s, some (.unknownMnemonic mnemonic))
    | opcode :: _ => advance s (Instruction.ofOpcode opcode).size

def statement (s : Sizing) (st : Statement) : Option (Outcome Sizing) :=
  let here := s.cursor.here
  let labelled : Outcome Sizing :=
    match st.label with
    | some name => if st.operation = some .equate then (s, none) else s.define name here
    | none => (s, none)
  match labelled with
  | (s, some e) => some (s, some e)
  | (s, none) =>
    match st.operation with
    | none => some (s, none)
    | some op => operation s here st op

/-- The counter of a state lies inside memory. -/
def Inside (s : Sizing) : Prop :=
  Checked.Inside s.cursor

variable {s : Sizing}

theorem gives_advance (h : Inside s) {count : Nat} (hcount : count < maxMove) :
    Gives Inside (advance s count) (s.advance count) := by
  rw [advance, advance_eq h hcount, Assembler.Sizing.advance]
  cases hmoved : s.cursor.advance count with
  | error e => exact .of_done h _
  | ok cursor => exact ⟨rfl, Checked.Inside.advance h hcount hmoved⟩

theorem gives_advance_then (h : Inside s) {count : Nat} (hcount : count < maxMove)
    {next : Sizing → Option (Outcome Sizing)} {next' : Sizing → Outcome Sizing}
    (hnext : ∀ s, Inside s → Gives Inside (next s) (next' s)) :
    Gives Inside
      (do match ← advance s count with
        | (s, none) => next s
        | (s, some e) => some (s, some e))
      (match s.advance count with
        | (s, none) => next' s
        | (s, some e) => (s, some e)) := by
  obtain ⟨hadvance, hinside⟩ := gives_advance h hcount
  rw [hadvance]
  generalize s.advance count = moved at hinside
  rcases moved with ⟨s, _ | e⟩
  · exact hnext s hinside
  · exact .of_done hinside _

theorem gives_bytes (h : Inside s) {operands : List (List Char)}
    (hcountable : ∀ operand ∈ operands, dataSize operand < maxMove) :
    Gives Inside (bytes s operands) (s.bytes operands) := by
  induction operands generalizing s with
  | nil => exact .of_done h _
  | cons operand rest ih =>
    obtain ⟨hone, hrest⟩ := List.forall_mem_cons.mp hcountable
    rw [bytes, Assembler.Sizing.bytes, quoted?_eq]
    cases hquoted : Assembler.quoted? operand with
    | error e => exact .of_done h _
    | ok text =>
      cases text with
      | none =>
        have hcount : 1 < maxMove := by decide
        exact gives_advance_then h hcount fun s hs => ih hs hrest
      | some text =>
        rw [dataSize_of_quoted hquoted] at hone
        exact gives_advance_then h hone fun s hs => ih hs hrest

theorem gives_words (h : Inside s) (operands : List (List Char)) :
    Gives Inside (words s operands) (s.words operands) := by
  induction operands generalizing s with
  | nil => exact .of_done h _
  | cons operand rest ih =>
    have hcount : 2 < maxMove := by decide
    rw [words, Assembler.Sizing.words]
    exact gives_advance_then h hcount fun s hs => ih hs

theorem inside_define (h : Inside s) (name : String) (value : UInt16) :
    Inside (s.define name value).1 := by
  rw [Assembler.Sizing.define]
  split <;> exact h

theorem gives_operation (h : Inside s) (here : UInt16) {st : Statement} {op : Operation}
    (hcountable : op = .bytes → ∀ operand ∈ st.operands, dataSize operand < maxMove) :
    Gives Inside (operation s here st op) (s.operation here st op) := by
  cases op with
  | finish => exact .of_done h _
  | equate =>
    rw [operation, Assembler.Sizing.operation, singleValue_eq]
    cases st.label with
    | none => exact .of_done h _
    | some name =>
      dsimp only
      cases single .equate st.operands >>= Assembler.wordValue s.symbols here with
      | error e => exact .of_done h _
      | ok value => exact ⟨rfl, inside_define h name value⟩
  | origin =>
    rw [operation, Assembler.Sizing.operation, moveToValue_eq h]
    cases hmoved : single .origin st.operands >>= Assembler.wordValue s.symbols here >>=
        s.cursor.moveTo with
    | error e => exact .of_done h _
    | ok moved => exact ⟨rfl, Checked.Inside.moveToValue h hmoved⟩
  | bytes =>
    rw [operation, Assembler.Sizing.operation]
    split
    · exact .of_done h _
    · exact gives_bytes h (hcountable rfl)
  | words =>
    rw [operation, Assembler.Sizing.operation]
    split
    · exact .of_done h _
    · exact gives_words h st.operands
  | space =>
    rw [operation, Assembler.Sizing.operation, singleValue_eq]
    cases single .space st.operands >>= Assembler.wordValue s.symbols here with
    | error e => exact .of_done h _
    | ok count =>
      have hcount : count.toNat < maxMove := Nat.lt_trans count.toNat_lt (by decide)
      exact gives_advance h hcount
  | instruction mnemonic =>
    rw [operation, Assembler.Sizing.operation]
    cases Instruction.withMnemonic mnemonic with
    | nil => exact .of_done h _
    | cons opcode rest =>
      have hcount : (Instruction.ofOpcode opcode).size < maxMove := by
        rw [Instruction.size_eq_sizeOfMnemonic]
        exact Nat.lt_of_le_of_lt (Instruction.sizeOfMnemonic_le _) (by decide)
      exact gives_advance h hcount

theorem gives_statement (h : Inside s) {st : Statement} (hcountable : st.IsCountable) :
    Gives Inside (statement s st) (s.statement st) := by
  have hoperation {s : Sizing} (hs : Inside s) (here : UInt16) :
      Gives Inside
        (match st.operation with
          | none => some (s, none)
          | some op => operation s here st op)
        (match st.operation with
          | none => (s, none)
          | some op => s.operation here st op) := by
    cases hop : st.operation with
    | none => exact .of_done hs _
    | some op =>
      exact gives_operation hs here fun hbytes => hcountable (hop.trans (congrArg some hbytes))
  rw [statement, Assembler.Sizing.statement]
  cases st.label with
  | none => exact hoperation h _
  | some name =>
    have hlabelled : Inside (if st.operation = some .equate then (s, none)
        else s.define name s.cursor.here).1 := by
      split
      · exact h
      · exact inside_define h name _
    dsimp only
    generalize (if st.operation = some .equate then (s, none)
      else s.define name s.cursor.here : Outcome Sizing) = labelled at hlabelled
    rcases labelled with ⟨s, _ | e⟩
    · exact hoperation hlabelled _
    · exact .of_done hlabelled _

end Sizing

namespace Emission

def emit (s : Emission) (code : List UInt8) : Option (Outcome Emission) := do
  match ← (advance s.cursor code.length).run with
  | .ok cursor => some (⟨cursor, s.image.appendList code⟩, none)
  | .error e => some (s, some e)

/-- The bytes of a data operand. -/
def dataCode (symbols : Symbols) (here : UInt16) (operand : List Char) :
    Attempt Fault (List UInt8) := do
  match ← ExceptT.mk (quoted? operand) with
  | some text => pure (Utf8.encode text)
  | none =>
    let v ← byteValue symbols here operand
    pure [v]

def bytes (s : Emission) (symbols : Symbols) (here : UInt16) :
    List (List Char) → Option (Outcome Emission)
  | [] => some (s, none)
  | operand :: rest => do
    match ← (dataCode symbols here operand).run with
    | .error e => some (s, some e)
    | .ok code =>
      match ← emit s code with
      | (s, none) => bytes s symbols here rest
      | (s, some e) => some (s, some e)

def words (s : Emission) (symbols : Symbols) (here : UInt16) :
    List (List Char) → Option (Outcome Emission)
  | [] => some (s, none)
  | operand :: rest => do
    match ← (wordValue symbols here operand).run with
    | .error e => some (s, some e)
    | .ok w =>
      match ← emit s [lowByte w, highByte w] with
      | (s, none) => words s symbols here rest
      | (s, some e) => some (s, some e)

def operation (s : Emission) (symbols : Symbols) (here : UInt16) (st : Statement)
    (op : Operation) : Option (Outcome Emission) :=
  match op with
  | .finish => some (s, none)
  | .equate => some (s, if st.label.isNone then some .missingLabel else none)
  | .origin => do
    match ← (moveToValue s.cursor symbols here op st.operands).run with
    | .error e => some (s, some e)
    | .ok (cursor, gap) => some (⟨cursor, s.image.appendList (List.replicate gap 0)⟩, none)
  | .bytes =>
    if st.operands.isEmpty then some (s, some (.missingOperand op.mnemonic))
    else bytes s symbols here st.operands
  | .words =>
    if st.operands.isEmpty then some (s, some (.missingOperand op.mnemonic))
    else words s symbols here st.operands
  | .space => do
    match ← (singleValue symbols here op st.operands).run with
    | .error e => some (s, some e)
    | .ok count => emit s (List.replicate count.toNat 0)
  | .instruction mnemonic => do
    match ← (encode symbols here mnemonic st.operands).run with
    | .error e => some (s, some e)
    | .ok code => emit s code

def statement (symbols : Symbols) (s : Emission) (st : Statement) : Option (Outcome Emission) :=
  match st.operation with
  | none => some (s, none)
  | some op => operation s symbols s.cursor.here st op

/-- The counter of a state lies inside memory. -/
def Inside (s : Emission) : Prop :=
  Checked.Inside s.cursor

variable {s : Emission} {symbols : Symbols} {here : UInt16}

theorem gives_emit (h : Inside s) {code : List UInt8} (hcode : code.length < maxMove) :
    Gives Inside (emit s code) (s.emit code) := by
  rw [emit, advance_eq h hcode, Assembler.Emission.emit]
  cases hmoved : s.cursor.advance code.length with
  | error e => exact .of_done h _
  | ok cursor => exact ⟨rfl, Checked.Inside.advance h hcode hmoved⟩

theorem gives_emit_then (h : Inside s) {code : List UInt8} (hcode : code.length < maxMove)
    {next : Emission → Option (Outcome Emission)} {next' : Emission → Outcome Emission}
    (hnext : ∀ s, Inside s → Gives Inside (next s) (next' s)) :
    Gives Inside
      (do match ← emit s code with
        | (s, none) => next s
        | (s, some e) => some (s, some e))
      (match s.emit code with
        | (s, none) => next' s
        | (s, some e) => (s, some e)) := by
  obtain ⟨hemit, hinside⟩ := gives_emit h hcode
  rw [hemit]
  generalize s.emit code = emitted at hinside
  rcases emitted with ⟨s, _ | e⟩
  · exact hnext s hinside
  · exact .of_done hinside _

theorem gives_bytes (h : Inside s) {operands : List (List Char)}
    (hcountable : ∀ operand ∈ operands, dataSize operand < maxMove) :
    Gives Inside (bytes s symbols here operands) (s.bytes symbols here operands) := by
  induction operands generalizing s with
  | nil => exact .of_done h _
  | cons operand rest ih =>
    obtain ⟨hone, hrest⟩ := List.forall_mem_cons.mp hcountable
    rw [bytes, Assembler.Emission.bytes, dataCode, quoted?_eq, byteValue_eq]
    cases hquoted : Assembler.quoted? operand with
    | error e => exact .of_done h _
    | ok text =>
      cases text with
      | some text =>
        rw [dataSize_of_quoted hquoted] at hone
        exact gives_emit_then h hone fun s hs => ih hs hrest
      | none =>
        cases hvalue : Assembler.byteValue symbols here operand with
        | error e => exact .of_done h _
        | ok v =>
          have hcode : [v].length < maxMove := (by decide : 1 < maxMove)
          exact gives_emit_then h hcode fun s hs => ih hs hrest

theorem gives_words (h : Inside s) (operands : List (List Char)) :
    Gives Inside (words s symbols here operands) (s.words symbols here operands) := by
  induction operands generalizing s with
  | nil => exact .of_done h _
  | cons operand rest ih =>
    rw [words, Assembler.Emission.words, wordValue_eq]
    cases Assembler.wordValue symbols here operand with
    | error e => exact .of_done h _
    | ok w =>
      have hcode : [lowByte w, highByte w].length < maxMove := (by decide : 2 < maxMove)
      exact gives_emit_then h hcode fun s hs => ih hs

theorem gives_operation (h : Inside s) {st : Statement} {op : Operation}
    (hcountable : op = .bytes → ∀ operand ∈ st.operands, dataSize operand < maxMove) :
    Gives Inside (operation s symbols here st op) (s.operation symbols here st op) := by
  cases op with
  | finish => exact .of_done h _
  | equate => exact .of_done h _
  | origin =>
    rw [operation, Assembler.Emission.operation, moveToValue_eq h]
    cases hmoved : single .origin st.operands >>= Assembler.wordValue symbols here >>=
        s.cursor.moveTo with
    | error e => exact .of_done h _
    | ok moved => exact ⟨rfl, Checked.Inside.moveToValue h hmoved⟩
  | bytes =>
    rw [operation, Assembler.Emission.operation]
    split
    · exact .of_done h _
    · exact gives_bytes h (hcountable rfl)
  | words =>
    rw [operation, Assembler.Emission.operation]
    split
    · exact .of_done h _
    · exact gives_words h st.operands
  | space =>
    rw [operation, Assembler.Emission.operation, singleValue_eq]
    cases single .space st.operands >>= Assembler.wordValue symbols here with
    | error e => exact .of_done h _
    | ok count =>
      have hcount : count.toNat < maxMove := Nat.lt_trans count.toNat_lt (by decide)
      have hcode : (List.replicate count.toNat (0 : UInt8)).length < maxMove := by
        rwa [List.length_replicate]
      exact gives_emit h hcode
  | instruction mnemonic =>
    rw [operation, Assembler.Emission.operation, encode_eq]
    cases hcode : Assembler.encode symbols here mnemonic st.operands with
    | error e => exact .of_done h _
    | ok code =>
      refine gives_emit h ?_
      rw [length_encode hcode]
      exact Nat.lt_of_le_of_lt (Instruction.sizeOfMnemonic_le _) (by decide)

theorem gives_statement (h : Inside s) {st : Statement} (hcountable : st.IsCountable) :
    Gives Inside (statement symbols s st) (Assembler.Emission.statement symbols s st) := by
  rw [statement, Assembler.Emission.statement]
  cases hop : st.operation with
  | none => exact .of_done h _
  | some op =>
    exact gives_operation h fun hbytes => hcountable (hop.trans (congrArg some hbytes))

end Emission

/-! ## The whole -/

def pass {σ : Type} (run : σ → Statement → Option (Outcome σ)) (s : σ)
    (good : List (Nat × Statement)) (bad : List Diagnostic) :
    List (Nat × Statement) → Option (σ × List (Nat × Statement) × List Diagnostic)
  | [] => some (s, good.reverse, bad.reverse)
  | (line, st) :: rest => do
    match ← run s st with
    | (s, none) => pass run s ((line, st) :: good) bad rest
    | (s, some e) => pass run s good (⟨line, e⟩ :: bad) rest

/-- Assembles the text at `origin`, if every access is in range. -/
def ofText (text : List Char) (origin : UInt16) : Option Assembly := do
  let source ← readSource text
  let (sized, statements, wrongSizes) ←
    pass Sizing.statement ⟨.start origin, .empty⟩ [] [] source.statements
  let (emitted, _, wrongCode) ←
    pass (Emission.statement sized.symbols) ⟨.start origin, #[]⟩ [] [] statements
  let diagnostics := (source.diagnostics ++ wrongSizes ++ wrongCode).mergeSort
    fun x y => x.line ≤ y.line
  some
    { origin := emitted.cursor.origin
      image := if diagnostics.isEmpty then emitted.image else #[]
      symbols := sized.symbols
      diagnostics }

theorem pass_eq {σ : Type} {p : σ → Prop} {checked : σ → Statement → Option (Outcome σ)}
    {run : σ → Statement → Outcome σ}
    (hstep : ∀ s st, p s → st.IsCountable → Gives p (checked s st) (run s st))
    {s : σ} (h : p s) (good : List (Nat × Statement)) (bad : List Diagnostic)
    {statements : List (Nat × Statement)}
    (hcountable : ∀ numbered ∈ statements, numbered.2.IsCountable) :
    pass checked s good bad statements = some (Assembler.pass run s good bad statements) := by
  induction statements generalizing s good bad with
  | nil => rfl
  | cons numbered rest ih =>
    obtain ⟨line, st⟩ := numbered
    obtain ⟨hone, hrest⟩ := List.forall_mem_cons.mp hcountable
    obtain ⟨hrun, hkeeps⟩ := hstep s st h hone
    rw [pass, Assembler.pass, hrun]
    generalize run s st = outcome at hkeeps
    rcases outcome with ⟨s, _ | e⟩
    · exact ih hkeeps _ _ hrest
    · exact ih hkeeps _ _ hrest

/-- A pass hands on none but the statements it was given. -/
theorem mem_of_mem_pass {σ : Type} {run : σ → Statement → Outcome σ} {s : σ}
    {good : List (Nat × Statement)} {bad : List Diagnostic} {statements : List (Nat × Statement)}
    {numbered : Nat × Statement}
    (h : numbered ∈ (Assembler.pass run s good bad statements).2.1) :
    numbered ∈ good ∨ numbered ∈ statements := by
  induction statements generalizing s good bad with
  | nil => exact .inl (List.mem_reverse.mp h)
  | cons first rest ih =>
    obtain ⟨line, st⟩ := first
    rw [Assembler.pass] at h
    split at h
    · obtain hgood | hrest := ih h
      · obtain rfl | hgood := List.mem_cons.mp hgood
        · exact .inr List.mem_cons_self
        · exact .inl hgood
      · exact .inr (List.mem_cons_of_mem _ hrest)
    · obtain hgood | hrest := ih h
      · exact .inl hgood
      · exact .inr (List.mem_cons_of_mem _ hrest)

/-- A source without a string that is too long for the counter passes every check. -/
theorem ofText_eq {text : List Char} (hcountable : Assembly.IsCountable text) (origin : UInt16) :
    ofText text origin = some (Assembly.ofText text origin) := by
  have hsizing : Sizing.Inside ⟨.start origin, .empty⟩ := inside_start origin
  have hemission : Emission.Inside ⟨.start origin, #[]⟩ := inside_start origin
  have hsized : pass Sizing.statement ⟨.start origin, .empty⟩ [] [] (Source.read text).statements =
      some (Assembler.pass Assembler.Sizing.statement ⟨.start origin, .empty⟩ [] []
        (Source.read text).statements) :=
    pass_eq (fun s st hs hst => Sizing.gives_statement hs hst) hsizing [] [] hcountable
  have hemitted (symbols : Symbols) {statements : List (Nat × Statement)}
      (hmem : ∀ numbered ∈ statements, numbered ∈ (Source.read text).statements) :
      pass (Emission.statement symbols) ⟨.start origin, #[]⟩ [] [] statements =
        some (Assembler.pass (Assembler.Emission.statement symbols) ⟨.start origin, #[]⟩ [] []
          statements) :=
    pass_eq (fun s st hs hst => Emission.gives_statement hs hst) hemission [] []
      fun numbered h => hcountable numbered (hmem numbered h)
  rw [ofText, readSource_eq]
  simp only [Option.bind_eq_bind, Option.bind_some, hsized]
  rw [hemitted _ fun numbered h => (mem_of_mem_pass h).resolve_left List.not_mem_nil]
  rfl

theorem size_le_of_quoted? {operand text : List Char}
    (h : Assembler.quoted? operand = .ok (some text)) : size text ≤ size operand := by
  cases operand with
  | nil => cases h
  | cons q rest =>
    rw [Assembler.quoted?] at h
    split at h
    case isTrue hq =>
      split at h
      · cases h
      · cases h
        exact size_le_of_sublist ((List.takeWhile_sublist _).trans (List.sublist_cons_self q rest))
      · cases h
    case isFalse => cases h

/-- The counter can count any string of a source that has not too many bytes itself. -/
theorem isCountable_of_size_lt {text : List Char} (h : size text < maxMove) :
    Assembly.IsCountable text := by
  intro numbered hnumbered hop operand hoperand
  have hsize := size_le_of_sublist (sublist_of_mem_operands hnumbered hoperand)
  rw [dataSize]
  split
  case h_1 quoted hquoted =>
    exact Nat.lt_of_le_of_lt (Nat.le_trans (size_le_of_quoted? hquoted) hsize) h
  case h_2 => decide

/-! ## A sum that is out of range -/

/-- The check fails where the counter would go round. -/
theorem Sizing.advance_eq_none {s : Sizing} {count : Nat}
    (h : 2 ^ 32 ≤ s.cursor.address.toNat + count % 2 ^ 32) : Sizing.advance s count = none := by
  have hsum : add? 32 s.cursor.address.toNat (count % 2 ^ 32) = none := if_neg (Nat.not_lt.mpr h)
  rw [Sizing.advance, Checked.advance, hsum]
  rfl

theorem Sizing.statement_ofLength_eq_none {n : Nat} {s : Sizing}
    (h : 2 ^ 32 ≤ s.cursor.address.toNat + n % 2 ^ 32) :
    Sizing.statement s (DataLine.ofLength n).statement = none := by
  have hquoted : Assembler.quoted? ('\'' :: List.replicate n 'A' ++ ['\'']) =
      .ok (some (List.replicate n 'A')) :=
    quoted?_string rfl fun hmem => absurd (List.eq_of_mem_replicate hmem) (by decide)
  have hsize : size (List.replicate n 'A') = n := DataLine.length_encode_letters n
  have hbytes : Sizing.bytes s ['\'' :: List.replicate n 'A' ++ ['\'']] = none := by
    rw [Sizing.bytes, quoted?_eq, hquoted]
    dsimp only [Option.bind_eq_bind, Option.bind_some]
    rw [hsize, advance_eq_none h]
    rfl
  rw [Sizing.statement]
  change Sizing.bytes s (DataLine.ofLength n).statement.operands = none
  rw [DataLine.operands_of_items (l := DataLine.ofLength n) rfl]
  exact hbytes

/-- A source with such a string does not pass. -/
theorem ofText_ofLength_eq_none {n : Nat} {origin : UInt16}
    (h : 2 ^ 32 ≤ origin.toNat + n % 2 ^ 32) : ofText (DataLine.ofLength n).text origin = none := by
  have hstart : 2 ^ 32 ≤ (Cursor.start origin).address.toNat + n % 2 ^ 32 := by
    rwa [Cursor.start, UInt16.toNat_toUInt32]
  rw [ofText, readSource_eq, DataLine.read_ofLength]
  dsimp only [Option.bind_eq_bind, Option.bind_some]
  rw [pass, Sizing.statement_ofLength_eq_none hstart]
  rfl

end Cpm80.Assembler.Checked
