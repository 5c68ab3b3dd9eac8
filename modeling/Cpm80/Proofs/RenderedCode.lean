import Cpm80.Proofs.SourceTable

/-!
# Encoding what is shown

The operands of an instruction, as they are shown, are encoded by its opcode to the bytes that
they show, and by no other opcode with its mnemonic. The one exception is a value that is shown
with a letter in front: the assembler takes it for a symbol, and a source without symbols has
none of that name.
-/
namespace Cpm80

open Text

namespace OperandForm

/-- The bytes of an operand after the opcode. -/
def bytes (low high : UInt8) : OperandForm → List UInt8
  | named _ | vector _ => []
  | data8 => [low]
  | data16 | address => [low, high]

/-- The characters of an operand as it is shown. -/
def shown (low high : UInt8) (form : OperandForm) : List Char :=
  (Instruction.renderOperand low high form).toList

variable (low high : UInt8)

@[simp] theorem shown_named (r : String) : (named r).shown low high = r.toList := rfl

@[simp] theorem shown_vector (n : Fin 8) : (vector n).shown low high = [Hex.digit n] := by
  have hdigits : ∀ n : Fin 8, n.val.repr.toList = [Hex.digit n] := by decide
  exact hdigits n

@[simp] theorem shown_data8 : data8.shown low high = Assembler.hexOperand [low] := by
  simp [shown, Instruction.renderOperand, Hex.byte, Assembler.hexOperand, Hex.bytes]

@[simp] theorem shown_data16 : data16.shown low high = Assembler.hexOperand [high, low] := by
  simp [shown, Instruction.renderOperand, Hex.byte, Assembler.hexOperand, Hex.bytes]

@[simp] theorem shown_address : address.shown low high = Assembler.hexOperand [high, low] := by
  simp [shown, Instruction.renderOperand, Hex.byte, Assembler.hexOperand, Hex.bytes]

end OperandForm

namespace Assembler

open Instruction

/-- The value of operand bytes, if there is one, is shown with a digit in front. -/
def LeadsWithDigit (bs : List UInt8) : Prop :=
  ∀ b ∈ bs.getLast?, b < 0xA0

instance (bs : List UInt8) : Decidable (LeadsWithDigit bs) :=
  Option.decidableForallMem bs.getLast?

/-- What the assembler makes of operands that show these bytes. -/
def reread (bs : List UInt8) : Except Fault (List UInt8) :=
  if LeadsWithDigit bs then .ok bs
  else .error (.undefinedSymbol (String.ofList (hexOperand bs.reverse)))

theorem capitals_of_mem_registerNames : ∀ r ∈ registerNames, Capitals r.toList := by
  decide

theorem ofList_upper_register {r : String} (hr : r ∈ registerNames) :
    String.ofList (upper r.toList) = r := by
  rw [(capitals_of_mem_registerNames r hr).upper, String.ofList_toList]

/-- The only register whose name ends in an `H` is shorter than a value. -/
theorem isRegister_hexOperand (b : UInt8) (bs : List UInt8) :
    isRegister (hexOperand (b :: bs)) = false := by
  have hregisters : ∀ r ∈ registerNames, r.toList.getLast? = some 'H' → r.toList.length = 1 := by
    decide
  rw [isRegister, (capitals_hexOperand _).upper, Bool.eq_false_iff, Ne, List.contains_iff_mem]
  intro hmem
  have hlength := hregisters _ hmem
  rw [String.toList_ofList, hexOperand_cons] at hlength
  have hlast : (hexOperand bs).getLast? = some 'H' := by
    rw [hexOperand, List.getLast?_append]
    rfl
  simp [List.getLast?_cons, hlast] at hlength

theorem isRegister_digit : ∀ n : Fin 8, isRegister [Hex.digit n] = false := by
  decide

section

variable {symbols : Symbols} {here : UInt16}

theorem evaluate_digit (n : Fin 8) : evaluate symbols here [Hex.digit n] = .ok n.val := by
  have hcapital : ∀ n : Fin 8, IsCapital (Hex.digit n) := by decide
  have hdigit : ∀ n : Fin 8, (Hex.digit n).isDigit = true := by decide
  have hnumber : ∀ n : Fin 8, number? [Hex.digit n] = some n.val := by decide
  have hread := read_of_isDigit (hcapital n) (hdigit n) (hnumber n)
  have hcapitals : Capitals [Hex.digit n] := by
    intro c hc
    rw [List.mem_singleton.mp hc]
    exact hcapital n
  exact evaluate_constant hcapitals (List.cons_ne_nil _ _) hread (by omega)

theorem encodeOperand_named {r s : String} (hs : s ∈ registerNames) :
    encodeOperand symbols here (.named r) s.toList = .ok (if s = r then some [] else none) := by
  rw [encodeOperand, ofList_upper_register hs]

theorem encodeOperand_vector (m n : Fin 8) :
    encodeOperand symbols here (.vector m) [Hex.digit n] =
      .ok (if n = m then some [] else none) := by
  have hvalue : ((n.val : Int) = (m.val : Int)) ↔ n = m := by
    rw [Int.natCast_inj, Fin.val_inj]
  rw [encodeOperand, isRegister_digit, evaluate_digit]
  simp only [Bool.false_eq_true, if_false, bind, Except.bind, hvalue]

theorem byteValue_hexOperand {low : UInt8} (h : low < 0xA0) :
    byteValue symbols here (hexOperand [low]) = .ok low := by
  have hlow := low.toNat_lt
  have hvalue : Hex.value 0 [low] = low.toNat := Nat.zero_add _
  have hevaluate : evaluate symbols here (hexOperand [low]) = .ok (Hex.value 0 [low]) :=
    evaluate_hexOperand h (by rw [hvalue]; omega)
  have hbyte : UInt8.ofNat ((low.toNat : Int) % 256).toNat = low := by
    apply UInt8.toNat_inj.mp
    rw [UInt8.toNat_ofNat']
    omega
  rw [byteValue, hevaluate, hvalue]
  simp only [bind, Except.bind]
  rw [if_pos (by omega), hbyte]

theorem wordValue_hexOperand {high low : UInt8} (h : high < 0xA0) :
    wordValue symbols here (hexOperand [high, low]) = .ok (word high low) := by
  have hword := (word high low).toNat_lt
  have hvalue : Hex.value 0 [high, low] = (word high low).toNat := by
    rw [toNat_word, Hex.value, List.foldl_cons, List.foldl_cons, List.foldl_nil, Nat.zero_mul,
      Nat.zero_add]
  have hevaluate : evaluate symbols here (hexOperand [high, low]) =
      .ok (Hex.value 0 [high, low]) :=
    evaluate_hexOperand h (by rw [hvalue]; omega)
  have hshort : UInt16.ofNat (((word high low).toNat : Int) % 65536).toNat = word high low := by
    apply UInt16.toNat_inj.mp
    rw [UInt16.toNat_ofNat']
    omega
  rw [wordValue, hevaluate, hvalue]
  simp only [bind, Except.bind]
  rw [if_pos (by omega), hshort]

variable (hsymbols : ∀ name, symbols.get? name = none) (low high : UInt8)

include hsymbols

theorem encodeOperand_byte :
    encodeOperand symbols here .data8 (hexOperand [low]) = (reread [low]).map some := by
  rw [encodeOperand, isRegister_hexOperand, reread]
  by_cases h : low < 0xA0
  · have hleads : LeadsWithDigit [low] := by simpa [LeadsWithDigit] using h
    rw [if_pos hleads, byteValue_hexOperand h]
    rfl
  · have hleads : ¬LeadsWithDigit [low] := by simpa [LeadsWithDigit] using h
    rw [if_neg hleads, byteValue, evaluate_hexOperand_undefined h (hsymbols _)]
    rfl

theorem encodeOperand_word {form : OperandForm} (hform : form = .data16 ∨ form = .address) :
    encodeOperand symbols here form (hexOperand [high, low]) =
      (reread [low, high]).map some := by
  have hencode : encodeOperand symbols here form (hexOperand [high, low]) =
      (wordValue symbols here (hexOperand [high, low])).map
        fun w => some [lowByte w, highByte w] := by
    rcases hform with rfl | rfl
    all_goals
      rw [encodeOperand, isRegister_hexOperand]
      rfl
  rw [hencode, reread]
  by_cases h : high < 0xA0
  · have hleads : LeadsWithDigit [low, high] := by simpa [LeadsWithDigit] using h
    rw [if_pos hleads, wordValue_hexOperand h, Except.map, Except.map, lowByte_word,
      highByte_word]
  · have hleads : ¬LeadsWithDigit [low, high] := by simpa [LeadsWithDigit] using h
    rw [if_neg hleads, wordValue, evaluate_hexOperand_undefined h (hsymbols _)]
    rfl

omit hsymbols in
/-- A register that stands in its place leaves the operands after it. -/
theorem encodeOperands_named {register : String} (hregister : register ∈ registerNames)
    (forms : List OperandForm) (operands : List (List Char)) :
    encodeOperands symbols here (.named register :: forms) (register.toList :: operands) =
      encodeOperands symbols here forms operands := by
  simp only [encodeOperands, encodeOperand_named hregister, if_true, bind, Except.bind,
    List.nil_append, Option.map_id']
  cases encodeOperands symbols here forms operands <;> rfl

omit hsymbols in
theorem encodeOperands_single {form : OperandForm} {text : List Char}
    {result : Except Fault (List UInt8)}
    (h : encodeOperand symbols here form text = result.map some) :
    encodeOperands symbols here [form] [text] = result.map some := by
  cases result with
  | ok code =>
    rw [Except.map] at h
    simp only [encodeOperands, h, bind, Except.bind, Option.map_some, List.append_nil, Except.map]
  | error e =>
    rw [Except.map] at h
    simp only [encodeOperands, h, bind, Except.bind, Except.map]

/-- Operands as they are shown, under their own forms. -/
theorem encodeOperands_shown {forms : List OperandForm} (h : Written forms) :
    encodeOperands symbols here forms (forms.map (·.shown low high)) =
      (reread (forms.flatMap (·.bytes low high))).map some := by
  induction h with
  | nil => rfl
  | @named register rest hregister hrest ih =>
    rw [List.map_cons, OperandForm.shown_named, encodeOperands_named hregister, ih]
    rfl
  | vector n =>
    have hvector : encodeOperand symbols here (.vector n) [Hex.digit n] = .ok (some []) := by
      rw [encodeOperand_vector, if_pos rfl]
    rw [List.map_singleton, OperandForm.shown_vector]
    exact encodeOperands_single hvector
  | data8 =>
    rw [List.map_singleton, OperandForm.shown_data8]
    exact encodeOperands_single (encodeOperand_byte hsymbols low)
  | data16 =>
    rw [List.map_singleton, OperandForm.shown_data16]
    exact encodeOperands_single (encodeOperand_word hsymbols low high (.inl rfl))
  | address =>
    rw [List.map_singleton, OperandForm.shown_address]
    exact encodeOperands_single (encodeOperand_word hsymbols low high (.inr rfl))

omit hsymbols in
/-- Operands as they are shown, under forms from which they part. -/
theorem encodeOperands_of_differ {others forms : List OperandForm} (h : Differ others forms)
    (hforms : Written forms) :
    encodeOperands symbols here others (forms.map (·.shown low high)) = .ok none := by
  induction h with
  | @named r s hne others forms =>
    cases hforms with
    | named hs hrest =>
      simp only [List.map_cons, OperandForm.shown_named, encodeOperands, encodeOperand_named hs,
        if_neg hne.symm, bind, Except.bind]
  | @vector m n hne others forms =>
    simp only [List.map_cons, OperandForm.shown_vector, encodeOperands, encodeOperand_vector,
      if_neg hne.symm, bind, Except.bind]
  | @tail others forms r h ih =>
    cases hforms with
    | named hr hrest =>
      rw [List.map_cons, OperandForm.shown_named, encodeOperands_named hr, ih hrest]

omit hsymbols in
/-- If only one of the opcodes takes the operands, its encoding is the result. -/
theorem encodeFirst_of_only {mnemonic : String} {operands : List (List Char)}
    {opcodes : List UInt8} {opcode : UInt8} {result : Except Fault (List UInt8)}
    (hmem : opcode ∈ opcodes)
    (hother : ∀ other ∈ opcodes, other ≠ opcode →
      encodeWith symbols here operands other = .ok none)
    (hwith : encodeWith symbols here operands opcode = result.map some) :
    encodeFirst symbols here mnemonic operands opcodes = result := by
  induction opcodes with
  | nil => cases hmem
  | cons first rest ih =>
    by_cases hfirst : first = opcode
    · rw [encodeFirst, hfirst, hwith]
      cases result <;> rfl
    · have hrest : opcode ∈ rest := (List.mem_cons.mp hmem).resolve_left (Ne.symm hfirst)
      rw [encodeFirst, hother first List.mem_cons_self hfirst]
      exact ih hrest fun other hin hne => hother other (List.mem_cons_of_mem first hin) hne

variable (here) in
/-- An instruction as it is shown is encoded by its own opcode. -/
theorem encode_shown {opcode : UInt8} (hdefined : (ofOpcode opcode).isDefined) :
    encode symbols here (ofOpcode opcode).mnemonic
        ((ofOpcode opcode).operands.map (·.shown low high)) =
      (reread ((ofOpcode opcode).operands.flatMap (·.bytes low high))).map (opcode :: ·) := by
  have hmem : opcode ∈ withMnemonic (ofOpcode opcode).mnemonic :=
    mem_withMnemonic.mpr ⟨hdefined, rfl⟩
  have hwritten := written_operands (ofOpcode opcode)
  rw [encode]
  split
  case h_1 hnone =>
    rw [hnone] at hmem
    cases hmem
  case h_2 hsome =>
    apply encodeFirst_of_only hmem
    case hother =>
      intro other hin hne
      obtain ⟨hother, hmnemonic⟩ := mem_withMnemonic.mp hin
      have hdiffer := differ_of_mnemonic_eq hdefined hother hmnemonic hne
      rw [encodeWith]
      split
      case isTrue hlength =>
        rw [encodeOperands_of_differ low high hdiffer hwritten]
        rfl
      case isFalse hlength => rfl
    case hwith =>
      rw [encodeWith, if_pos (List.length_map _).symm,
        encodeOperands_shown hsymbols low high hwritten]
      cases reread ((ofOpcode opcode).operands.flatMap (·.bytes low high)) <;> rfl

end

end Assembler

end Cpm80
