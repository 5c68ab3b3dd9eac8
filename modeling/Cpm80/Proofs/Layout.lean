import Cpm80.Proofs.Encoding
import Mathlib.Algebra.Group.Nat.Defs
import Mathlib.Data.List.Forall2

/-!
# What a statement does to the address counter

Both passes move the counter by the same amounts, though they compute them differently. The
amount is said here once, as the effect of an operation under a table of symbols: bytes to move
over, or an address to move to. Each pass, when it finds nothing wrong, has this effect, and
the effect does not change when the table grows.

The counter has 32 bits. It goes round only over a string of about 2^32 bytes, so what it says about
addresses is true of a source without such a string.
-/
namespace Cpm80.Assembler

/-- What an operation does to the counter. -/
inductive Effect
  | over (count : Nat)
  | to (address : UInt16)
  deriving DecidableEq, Repr

/-- The number of bytes of a data operand. -/
def dataSize (operand : List Char) : Nat :=
  match quoted? operand with
  | .ok (some text) => (Utf8.encode text).length
  | _ => 1

def dataSizes : List (List Char) → Nat
  | [] => 0
  | operand :: rest => dataSize operand + dataSizes rest

theorem dataSize_of_quoted {operand text : List Char} (h : quoted? operand = .ok (some text)) :
    dataSize operand = (Utf8.encode text).length := by
  rw [dataSize, h]

theorem dataSize_of_expression {operand : List Char} (h : quoted? operand = .ok none) :
    dataSize operand = 1 := by
  rw [dataSize, h]

/-- From any place in memory the counter can be moved over fewer bytes than these without going
round. -/
def maxMove : Nat := 2 ^ 32 - 2 ^ 16

/-- No data of the statement is too long for the counter. -/
def Statement.IsCountable (st : Statement) : Prop :=
  st.operation = some .bytes → ∀ operand ∈ st.operands, dataSize operand < maxMove

instance (st : Statement) : Decidable st.IsCountable :=
  inferInstanceAs (Decidable (st.operation = some .bytes →
    ∀ operand ∈ st.operands, dataSize operand < maxMove))

/-- The bytes of a data operand: a string as it is, an expression as one byte. -/
def dataCode (symbols : Symbols) (here : UInt16) (operand : List Char) :
    Except Fault (List UInt8) := do
  match ← quoted? operand with
  | some text => .ok (Utf8.encode text)
  | none =>
    let v ← byteValue symbols here operand
    .ok [v]

theorem length_dataCode {symbols : Symbols} {here : UInt16} {operand : List Char}
    {code : List UInt8} (h : dataCode symbols here operand = .ok code) :
    code.length = dataSize operand := by
  obtain ⟨text?, htext, hcode⟩ := bind_eq_ok.mp h
  cases text? with
  | some text =>
    cases hcode
    rw [dataSize_of_quoted htext]
  | none =>
    obtain ⟨v, -, hcode⟩ := bind_eq_ok.mp hcode
    cases hcode
    rw [dataSize_of_expression htext]
    rfl

def effect (symbols : Symbols) (here : UInt16) (operands : List (List Char)) (op : Operation) :
    Except Fault Effect :=
  match op with
  | .finish | .equate => .ok (.over 0)
  | .origin => do
    let address ← single op operands >>= wordValue symbols here
    .ok (.to address)
  | .bytes => .ok (.over (dataSizes operands))
  | .words => .ok (.over (2 * operands.length))
  | .space => do
    let count ← single op operands >>= wordValue symbols here
    .ok (.over count.toNat)
  | .instruction mnemonic => .ok (.over (Instruction.sizeOfMnemonic mnemonic))

theorem effect_within {small big : Symbols} (h : small.Within big) {here : UInt16}
    {operands : List (List Char)} {op : Operation} {f : Effect}
    (hf : effect small here operands op = .ok f) : effect big here operands op = .ok f := by
  cases op with
  | origin | space =>
    rw [effect, bind_eq_ok] at hf ⊢
    obtain ⟨w, hw, hf⟩ := hf
    obtain ⟨operand, hoperand, hw⟩ := bind_eq_ok.mp hw
    exact ⟨w, bind_eq_ok.mpr ⟨operand, hoperand, wordValue_within h hw⟩, hf⟩
  | finish | equate | bytes | words | instruction => exact hf

namespace Cursor

/-- The cursor after an effect. As long as nothing has been emitted, the origin moves too. -/
def after (c : Cursor) : Effect → Cursor
  | .over count => { c with address := c.address + UInt32.ofNat count }
  | .to address =>
    if c.address = c.origin.toUInt32 then start address
    else { c with address := address.toUInt32 }

theorem after_over_zero (c : Cursor) : c.after (.over 0) = c :=
  congrArg (Cursor.mk c.origin) (UInt32.add_zero c.address)

theorem after_over_over (c : Cursor) (m n : Nat) :
    (c.after (.over m)).after (.over n) = c.after (.over (m + n)) := by
  simp only [after, UInt32.add_assoc, UInt32.ofNat_add]

/-- Where its 32 bits end the counter goes round. -/
theorem toNat_address_over (c : Cursor) (count : Nat) :
    (c.after (.over count)).address.toNat = (c.address.toNat + count) % 2 ^ 32 := by
  rw [after, UInt32.toNat_add, UInt32.toNat_ofNat', Nat.add_mod_mod]

theorem toNat_address_over_of_le {c : Cursor} {count : Nat}
    (h : c.address.toNat + count ≤ 65536) :
    (c.after (.over count)).address.toNat = c.address.toNat + count := by
  rw [toNat_address_over]
  exact Nat.mod_eq_of_lt (Nat.lt_of_le_of_lt h (by decide))

/-- The counter moves if it then stands at most just behind memory. -/
theorem advance_eq (c : Cursor) (count : Nat) :
    c.advance count =
      if (c.address.toNat + count) % 2 ^ 32 ≤ 65536 then .ok (c.after (.over count))
      else .error .addressOverflow := by
  rw [← toNat_address_over]
  rfl

theorem advance_of_mod_le {c : Cursor} {count : Nat}
    (h : (c.address.toNat + count) % 2 ^ 32 ≤ 65536) :
    c.advance count = .ok (c.after (.over count)) := by
  rw [advance_eq, if_pos h]

theorem advance_of_le {c : Cursor} {count : Nat} (h : c.address.toNat + count ≤ 65536) :
    c.advance count = .ok (c.after (.over count)) :=
  advance_of_mod_le (Nat.le_trans (Nat.mod_le _ _) h)

theorem advance_eq_ok {c c' : Cursor} {count : Nat} (h : c.advance count = .ok c') :
    c' = c.after (.over count) ∧ c'.address.toNat ≤ 65536 := by
  rw [advance_eq, ← toNat_address_over] at h
  split at h
  case isTrue hfits =>
    cases h
    exact ⟨rfl, hfits⟩
  case isFalse hout => cases h

/-- From a place in memory the counter does not go round over a count that is small enough. -/
theorem toNat_address_advance {c c' : Cursor} {count : Nat} (h : c.advance count = .ok c')
    (hinside : c.address.toNat ≤ 65536) (hcount : count < maxMove) :
    c'.address.toNat = c.address.toNat + count := by
  rw [(advance_eq_ok h).1, toNat_address_over]
  rw [maxMove] at hcount
  exact Nat.mod_eq_of_lt (by omega)

/-- Moving to an address moves the origin, or fills the gap in front of the address. -/
theorem moveTo_eq_ok {c c' : Cursor} {address : UInt16} {gap : Nat}
    (h : c.moveTo address = .ok (c', gap)) :
    c' = c.after (.to address) ∧
      (c.address = c.origin.toUInt32 ∧ gap = 0 ∨
        c.address ≠ c.origin.toUInt32 ∧ address.toNat = c.address.toNat + gap ∧
          c' = c.after (.over gap)) := by
  rw [moveTo] at h
  split at h
  case isTrue hstart =>
    cases h
    exact ⟨by rw [after, if_pos hstart], .inl ⟨hstart, rfl⟩⟩
  case isFalse hemitted =>
    split at h
    case isTrue hback => cases h
    case isFalse hforward =>
      dsimp only at h
      split at h
      case h_1 moved hmoved =>
        cases h
        obtain ⟨hover, -⟩ := advance_eq_ok hmoved
        -- the gap ends at the address, which is not behind the counter
        have hle : c.address ≤ address.toUInt32 := UInt32.not_lt.mp hforward
        have hsum : address.toNat = c.address.toNat + (address.toUInt32 - c.address).toNat := by
          rw [UInt32.toNat_sub_of_le _ _ hle, UInt16.toNat_toUInt32]
          rw [UInt32.le_iff_toNat_le, UInt16.toNat_toUInt32] at hle
          omega
        refine ⟨?_, .inr ⟨hemitted, hsum, hover⟩⟩
        rw [hover, after, after, if_neg hemitted, UInt32.ofNat_toNat, UInt32.add_comm,
          UInt32.sub_add_cancel]
      case h_2 e hfail => cases h

/-- A move starts anew at the address, or goes on up to it over a gap. -/
theorem moveTo_cases {c c' : Cursor} {address : UInt16} {gap : Nat}
    (h : c.moveTo address = .ok (c', gap)) :
    c.address = c.origin.toUInt32 ∧ gap = 0 ∧ c' = start address ∨
      c.address ≠ c.origin.toUInt32 ∧ address.toNat = c.address.toNat + gap ∧
        c' = c.after (.over gap) := by
  obtain ⟨hto, ⟨hstart, hgap⟩ | hover⟩ := moveTo_eq_ok h
  · exact .inl ⟨hstart, hgap, by rw [hto, after, if_pos hstart]⟩
  · exact .inr hover

theorem moveTo_le {c c' : Cursor} {address : UInt16} {gap : Nat}
    (h : c.moveTo address = .ok (c', gap)) : c'.address.toNat ≤ 65536 := by
  have haddress := address.toNat_lt
  rcases moveTo_cases h with ⟨-, -, rfl⟩ | ⟨-, hend, rfl⟩
  · rw [start, UInt16.toNat_toUInt32]
    omega
  · rw [toNat_address_over_of_le (by omega)]
    omega

end Cursor

namespace Sizing

variable {s s' : Sizing} {here : UInt16} {st : Statement} {op : Operation}

theorem advance_eq {count : Nat} (h : s.advance count = (s', none)) :
    s' = { s with cursor := s.cursor.after (.over count) } := by
  rw [advance] at h
  split at h
  case h_1 cursor hcursor =>
    cases h
    rw [(Cursor.advance_eq_ok hcursor).1]
  case h_2 e hfail => cases h

theorem bytes_eq {operands : List (List Char)} (h : s.bytes operands = (s', none)) :
    s' = { s with cursor := s.cursor.after (.over (dataSizes operands)) } := by
  induction operands generalizing s with
  | nil =>
    cases h
    rw [dataSizes, Cursor.after_over_zero]
  | cons operand rest ih =>
    rw [bytes] at h
    split at h
    case h_1 e hfail => cases h
    case h_2 text? htext =>
      rw [dataSizes, ← Cursor.after_over_over]
      cases text? with
      | some text =>
        rw [dataSize_of_quoted htext]
        dsimp only at h
        split at h
        case h_1 moved hmoved => rw [ih h, advance_eq hmoved]
        case h_2 moved e hmoved => cases h
      | none =>
        rw [dataSize_of_expression htext]
        dsimp only at h
        split at h
        case h_1 moved hmoved => rw [ih h, advance_eq hmoved]
        case h_2 moved e hmoved => cases h

theorem words_eq {operands : List (List Char)} (h : s.words operands = (s', none)) :
    s' = { s with cursor := s.cursor.after (.over (2 * operands.length)) } := by
  induction operands generalizing s with
  | nil =>
    cases h
    rw [List.length_nil, Nat.mul_zero, Cursor.after_over_zero]
  | cons operand rest ih =>
    rw [words] at h
    split at h
    case h_1 moved hmoved =>
      rw [ih h, advance_eq hmoved, List.length_cons, Cursor.after_over_over, Nat.mul_succ,
        Nat.add_comm 2]
    case h_2 moved e hmoved => cases h

theorem define_eq {name : String} {value : UInt16} (h : s.define name value = (s', none)) :
    s' = { s with symbols := s.symbols.insert name value } ∧ s.symbols.Within s'.symbols := by
  rw [define] at h
  split at h
  case isTrue hdouble => cases h
  case isFalse hnew =>
    cases h
    exact ⟨rfl, Symbols.within_insert value (Bool.not_eq_true _ ▸ hnew)⟩

/-- An operation that is sized without a fault has its effect, and keeps all symbols. -/
theorem operation_eq (h : s.operation here st op = (s', none)) :
    s.symbols.Within s'.symbols ∧
      ∃ f, effect s.symbols here st.operands op = .ok f ∧ s'.cursor = s.cursor.after f := by
  cases op with
  | finish =>
    cases h
    exact ⟨.refl _, _, rfl, s.cursor.after_over_zero.symm⟩
  | equate =>
    rw [operation] at h
    split at h
    case h_1 hlabel => cases h
    case h_2 name hlabel =>
      split at h
      case h_1 e hfail => cases h
      case h_2 value hvalue =>
        obtain ⟨hs, hwithin⟩ := define_eq h
        exact ⟨hwithin, _, rfl, by rw [hs, Cursor.after_over_zero]⟩
  | origin =>
    rw [operation] at h
    split at h
    case h_1 e hfail => cases h
    case h_2 cursor gap hmoved =>
      cases h
      obtain ⟨address, haddress, hmoved⟩ := bind_eq_ok.mp hmoved
      refine ⟨.refl _, .to address, ?_, (Cursor.moveTo_eq_ok hmoved).1⟩
      exact bind_eq_ok.mpr ⟨address, haddress, rfl⟩
  | bytes =>
    rw [operation] at h
    split at h
    case isTrue hempty => cases h
    case isFalse hsome =>
      rw [bytes_eq h]
      exact ⟨.refl _, _, rfl, rfl⟩
  | words =>
    rw [operation] at h
    split at h
    case isTrue hempty => cases h
    case isFalse hsome =>
      rw [words_eq h]
      exact ⟨.refl _, _, rfl, rfl⟩
  | space =>
    rw [operation] at h
    split at h
    case h_1 e hfail => cases h
    case h_2 count hcount =>
      rw [advance_eq h]
      exact ⟨.refl _, .over count.toNat, bind_eq_ok.mpr ⟨count, hcount, rfl⟩, rfl⟩
  | instruction mnemonic =>
    rw [operation] at h
    split at h
    case h_1 hnone => cases h
    case h_2 opcode rest hopcodes =>
      have hmem : opcode ∈ Instruction.withMnemonic mnemonic := by
        rw [hopcodes]
        exact List.mem_cons_self
      rw [advance_eq h, Instruction.size_of_mem_withMnemonic hmem]
      exact ⟨.refl _, _, rfl, rfl⟩

/-- A statement that is sized without a fault defines its label at the counter, unless it is
an `EQU`, and then does what its operation does. -/
theorem statement_eq (h : s.statement st = (s', none)) :
    ∃ labelled : Sizing, labelled.cursor = s.cursor ∧ s.symbols.Within labelled.symbols ∧
      (∀ name, st.label = some name → st.operation ≠ some .equate →
        labelled.symbols.get? name = some s.cursor.here) ∧
      (st.operation = none → s' = labelled) ∧
      (∀ op, st.operation = some op →
        labelled.operation s.cursor.here st op = (s', none)) := by
  rw [statement] at h
  split at h
  case h_1 failed e hfail => cases h
  case h_2 labelled hlabelled =>
    have hrest : (st.operation = none → s' = labelled) ∧
        ∀ op, st.operation = some op → labelled.operation s.cursor.here st op = (s', none) := by
      constructor
      · intro hnone
        rw [hnone] at h
        cases h
        rfl
      · intro op hop
        rwa [hop] at h
    split at hlabelled
    case h_1 name hlabel =>
      split at hlabelled
      case isTrue hequate =>
        cases hlabelled
        exact ⟨s, rfl, .refl _, fun _ _ hne => absurd hequate hne, hrest⟩
      case isFalse hother =>
        obtain ⟨rfl, hwithin⟩ := define_eq hlabelled
        refine ⟨{ s with symbols := s.symbols.insert name s.cursor.here }, rfl, hwithin, ?_,
          hrest⟩
        intro other hother _
        obtain rfl : name = other := Option.some.inj (hlabel.symm.trans hother)
        exact (SortedMap.get?_insert _ name name _).trans (if_pos rfl)
    case h_2 hlabel =>
      cases hlabelled
      refine ⟨s, rfl, .refl _, ?_, hrest⟩
      intro name hname
      rw [hlabel] at hname
      cases hname

end Sizing

namespace Emission

variable {s s' : Emission} {symbols : Symbols} {here : UInt16} {st : Statement} {op : Operation}

theorem image_append_append (image : Array UInt8) (front back : List UInt8) :
    image ++ front ++ back = image ++ (front ++ back) := by
  apply Array.toList_inj.mp
  rw [Array.toList_appendList, Array.toList_appendList, Array.toList_appendList,
    List.append_assoc]

/-- The state after some more bytes. -/
def appended (s : Emission) (code : List UInt8) : Emission :=
  ⟨s.cursor.after (.over code.length), s.image ++ code⟩

theorem appended_nil (s : Emission) : s.appended [] = s :=
  congrArg (Emission.mk · s.image) s.cursor.after_over_zero

theorem appended_appended (s : Emission) (front back : List UInt8) :
    (s.appended front).appended back = s.appended (front ++ back) := by
  rw [appended, appended, appended, Cursor.after_over_over, List.length_append,
    image_append_append]

/-- What one statement can do: emit bytes, or move the origin as long as there are none. -/
inductive Step (s : Emission) : Emission → Prop
  | emits (code : List UInt8) : Step s (s.appended code)
  | moves (address : UInt16) (h : s.cursor.address = s.cursor.origin.toUInt32) :
    Step s { s with cursor := .start address }

theorem Step.refl (s : Emission) : Step s s := by
  have hnothing := Step.emits (s := s) []
  rwa [appended_nil] at hnothing

theorem emit_eq {code : List UInt8} (h : s.emit code = (s', none)) : s' = s.appended code := by
  rw [emit] at h
  split at h
  case h_1 cursor hcursor =>
    cases h
    rw [(Cursor.advance_eq_ok hcursor).1]
    rfl
  case h_2 e hfail => cases h

theorem emit_of_mod_le {code : List UInt8}
    (h : (s.cursor.address.toNat + code.length) % 2 ^ 32 ≤ 65536) :
    s.emit code = (s.appended code, none) := by
  rw [emit, Cursor.advance_of_mod_le h]
  rfl

theorem emit_of_le {code : List UInt8} (h : s.cursor.address.toNat + code.length ≤ 65536) :
    s.emit code = (s.appended code, none) :=
  emit_of_mod_le (Nat.le_trans (Nat.mod_le _ _) h)

theorem bytes_cons (s : Emission) (operand : List Char) (rest : List (List Char)) :
    s.bytes symbols here (operand :: rest) =
      match dataCode symbols here operand with
      | .error e => (s, some e)
      | .ok code =>
        match s.emit code with
        | (s, none) => s.bytes symbols here rest
        | (s, some e) => (s, some e) :=
  rfl

/-- Data is emitted operand by operand. -/
theorem bytes_eq {operands : List (List Char)}
    (h : s.bytes symbols here operands = (s', none)) :
    ∃ codes, List.Forall₂ (fun operand code => dataCode symbols here operand = .ok code)
        operands codes ∧ s' = s.appended codes.flatten := by
  induction operands generalizing s with
  | nil =>
    cases h
    exact ⟨[], .nil, (appended_nil _).symm⟩
  | cons operand rest ih =>
    rw [bytes_cons] at h
    split at h
    case h_1 e hfail => cases h
    case h_2 front hfront =>
      split at h
      case h_1 emitted hemitted =>
        obtain ⟨codes, hcodes, hlast⟩ := ih h
        refine ⟨front :: codes, .cons hfront hcodes, ?_⟩
        rw [hlast, emit_eq hemitted, appended_appended, List.flatten_cons]
      case h_2 emitted e hemitted => cases h

theorem words_eq {operands : List (List Char)}
    (h : s.words symbols here operands = (s', none)) :
    ∃ ws, List.Forall₂ (fun operand w => wordValue symbols here operand = .ok w) operands ws ∧
      s' = s.appended (ws.flatMap fun w => [lowByte w, highByte w]) := by
  induction operands generalizing s with
  | nil =>
    cases h
    exact ⟨[], .nil, (appended_nil _).symm⟩
  | cons operand rest ih =>
    rw [words] at h
    split at h
    case h_1 e hfail => cases h
    case h_2 w hw =>
      split at h
      case h_1 emitted hemitted =>
        obtain ⟨ws, hws, hlast⟩ := ih h
        refine ⟨w :: ws, .cons hw hws, ?_⟩
        rw [hlast, emit_eq hemitted, appended_appended, List.flatMap_cons]
      case h_2 emitted e hemitted => cases h

theorem length_flatten_dataCodes {operands : List (List Char)} {codes : List (List UInt8)}
    (h : List.Forall₂ (fun operand code => dataCode symbols here operand = .ok code)
      operands codes) : codes.flatten.length = dataSizes operands := by
  induction h with
  | nil => rfl
  | cons hfirst hrest ih =>
    rw [List.flatten_cons, List.length_append, ih, length_dataCode hfirst, dataSizes]

/-- An operation that is emitted without a fault has its effect. -/
theorem operation_eq (h : s.operation symbols here st op = (s', none)) :
    s.Step s' ∧
      ∃ f, effect symbols here st.operands op = .ok f ∧ s'.cursor = s.cursor.after f := by
  cases op with
  | finish =>
    cases h
    exact ⟨.refl s, _, rfl, s.cursor.after_over_zero.symm⟩
  | equate =>
    obtain rfl : s = s' := congrArg Prod.fst h
    exact ⟨.refl s, _, rfl, s.cursor.after_over_zero.symm⟩
  | origin =>
    rw [operation] at h
    split at h
    case h_1 e hfail => cases h
    case h_2 cursor gap hmoved =>
      cases h
      obtain ⟨address, haddress, hmoved⟩ := bind_eq_ok.mp hmoved
      obtain ⟨hcursor, hstep⟩ := Cursor.moveTo_eq_ok hmoved
      refine ⟨?_, .to address, bind_eq_ok.mpr ⟨address, haddress, rfl⟩, hcursor⟩
      rcases hstep with ⟨hstart, rfl⟩ | ⟨hemitted, -, hover⟩
      · rw [hcursor, Cursor.after, if_pos hstart]
        exact .moves address hstart
      · have hfilled := Step.emits (s := s) (List.replicate gap 0)
        rwa [appended, List.length_replicate, ← hover] at hfilled
  | bytes =>
    rw [operation] at h
    split at h
    case isTrue hempty => cases h
    case isFalse hsome =>
      obtain ⟨codes, hcodes, rfl⟩ := bytes_eq h
      exact ⟨.emits _, _, rfl, by rw [appended, length_flatten_dataCodes hcodes]⟩
  | words =>
    rw [operation] at h
    split at h
    case isTrue hempty => cases h
    case isFalse hsome =>
      obtain ⟨ws, hws, rfl⟩ := words_eq h
      have hlength : (ws.flatMap fun w => [lowByte w, highByte w]).length =
          2 * st.operands.length := by
        rw [List.length_flatMap, hws.length_eq]
        simp only [List.length_cons, List.length_nil, List.map_const', List.sum_replicate_nat]
        exact Nat.mul_comm _ _
      exact ⟨.emits _, _, rfl, by rw [appended, hlength]⟩
  | space =>
    rw [operation] at h
    split at h
    case h_1 e hfail => cases h
    case h_2 count hcount =>
      rw [emit_eq h]
      refine ⟨.emits _, .over count.toNat, bind_eq_ok.mpr ⟨count, hcount, rfl⟩, ?_⟩
      rw [appended, List.length_replicate]
  | instruction mnemonic =>
    rw [operation] at h
    split at h
    case h_1 e hfail => cases h
    case h_2 code hcode =>
      rw [emit_eq h]
      exact ⟨.emits code, _, rfl, by rw [appended, length_encode hcode]⟩

end Emission

end Cpm80.Assembler
