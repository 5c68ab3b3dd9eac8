import Cpm80.Proofs.Quotes

/-!
# Hexadecimal operands

Bytes are shown with two hexadecimal digits each and an `H` at the end. Whether such a text is
a number as an operand depends on its first character alone: with a digit it has the value
of the bytes, with a letter it is the name of a symbol.
-/
namespace Cpm80

open Text

namespace Hex

theorem digit?_digit : ∀ n < 16, Numeral.digit? (digit n) = some n := by
  decide

theorem isCapital_digit : ∀ n < 16, IsCapital (digit n) := by
  decide

theorem isDigit_digit : ∀ n < 16, (digit n).isDigit = decide (n < 10) := by
  decide

theorem digit_ne_marker : ∀ n < 16, digit n ≠ 'X' := by
  decide

theorem digits_two (n : Nat) : digits 2 n = [digit (n / 16 % 16), digit (n % 16)] := rfl

/-- The digits of bytes, the first byte in front. -/
def bytes (bs : List UInt8) : List Char :=
  bs.flatMap fun b => digits 2 b.toNat

theorem bytes_cons (b : UInt8) (bs : List UInt8) :
    bytes (b :: bs) = digit (b.toNat / 16 % 16) :: digit (b.toNat % 16) :: bytes bs := by
  rw [bytes, List.flatMap_cons, digits_two]
  rfl

theorem mem_bytes {bs : List UInt8} {c : Char} (hc : c ∈ bytes bs) :
    ∃ n < 16, c = digit n := by
  obtain ⟨b, -, hc⟩ := List.mem_flatMap.mp hc
  rw [digits_two, List.mem_cons, List.mem_singleton] at hc
  rcases hc with rfl | rfl
  · exact ⟨_, Nat.mod_lt _ (by decide), rfl⟩
  · exact ⟨_, Nat.mod_lt _ (by decide), rfl⟩

theorem capitals_bytes (bs : List UInt8) : Capitals (bytes bs) := by
  intro c hc
  obtain ⟨n, hn, rfl⟩ := mem_bytes hc
  exact isCapital_digit n hn

/-- The number that bytes make up after the number `n`, the first byte in front. -/
def value (n : Nat) (bs : List UInt8) : Nat :=
  bs.foldl (fun n b => n * 256 + b.toNat) n

theorem extend?_bytes (n : Nat) (bs : List UInt8) :
    Numeral.extend? 16 n (bytes bs) = some (value n bs) := by
  induction bs generalizing n with
  | nil => rfl
  | cons b bs ih =>
    have hhigh := digit?_digit (b.toNat / 16 % 16) (Nat.mod_lt _ (by decide))
    have hlow := digit?_digit (b.toNat % 16) (Nat.mod_lt _ (by decide))
    have hbyte : (n * 16 + b.toNat / 16 % 16) * 16 + b.toNat % 16 = n * 256 + b.toNat := by
      have := b.toNat_lt
      omega
    simp only [bytes_cons, Numeral.extend?, hhigh, hlow, if_pos (Nat.mod_lt _ (by decide : 0 < 16))]
    rw [hbyte, ih, value, value, List.foldl_cons]

end Hex

namespace Assembler

/-- The operand that shows bytes, the first byte in front. -/
def hexOperand (bs : List UInt8) : List Char :=
  Hex.bytes bs ++ ['H']

theorem capitals_hexOperand (bs : List UInt8) : Capitals (hexOperand bs) :=
  (Hex.capitals_bytes bs).append (by decide)

theorem hexOperand_cons (b : UInt8) (bs : List UInt8) :
    hexOperand (b :: bs) =
      Hex.digit (b.toNat / 16 % 16) :: Hex.digit (b.toNat % 16) :: hexOperand bs := by
  rw [hexOperand, Hex.bytes_cons]
  rfl

/-- The second digit keeps the text apart from the notation with a leading `0X`. -/
theorem numberForm_hexOperand (b : UInt8) (bs : List UInt8) :
    numberForm (hexOperand (b :: bs)) = (16, Hex.bytes (b :: bs)) := by
  have hmarker : ∀ hex, hexOperand (b :: bs) ≠ '0' :: 'X' :: hex := by
    intro hex heq
    rw [hexOperand_cons] at heq
    have hsecond := (List.cons.inj (List.cons.inj heq).2).1
    exact Hex.digit_ne_marker _ (Nat.mod_lt _ (by decide)) hsecond
  have hlast : (hexOperand (b :: bs)).getLast? = some 'H' := by
    rw [hexOperand, List.getLast?_append]
    rfl
  rw [numberForm, hlast, hexOperand, List.dropLast_concat]
  · rfl
  · exact hmarker

theorem number?_hexOperand {b : UInt8} {bs : List UInt8}
    (hsmall : Hex.value 0 (b :: bs) ≤ 0x7FFFFFFFFFFFFFFF) :
    number? (hexOperand (b :: bs)) = some (Hex.value 0 (b :: bs)) := by
  have hdigits : Numeral.nat? 16 (Hex.bytes (b :: bs)) = some (Hex.value 0 (b :: bs)) := by
    rw [Numeral.nat?, Hex.extend?_bytes, Hex.bytes_cons]
    rfl
  simp only [number?, (capitals_hexOperand _).upper, numberForm_hexOperand, hdigits,
    if_pos hsmall]

/-- A text of capitals holds no sign and no quote, so it is a single term. -/
theorem splitTermsFrom_capitals {s : List Char} (h : Capitals s) (whole current : List Char)
    (done : List SignedText) :
    splitTermsFrom whole none false current done s =
      .ok (⟨false, current.reverse ++ s⟩ :: done).reverse := by
  have hsign : Outside (¬IsSign ·) none s := by
    refine outside_of_forall fun c hc => ?_
    rintro (hplus | hminus)
    · exact (h c hc).ne (by decide) hplus
    · exact (h c hc).ne (by decide) hminus
  have hquote : quoteBehind none s = none := quoteBehind_of_forall fun c hc => (h c hc).isQuote
  have hsplit := splitTermsFrom_append hsign whole false current [] done
  rw [List.append_nil, hquote] at hsplit
  rw [hsplit, splitTermsFrom, List.reverse_append, List.reverse_reverse]
  rfl

theorem read_of_isDigit {c : Char} {rest : List Char} {n : Nat} (hc : IsCapital c)
    (hdigit : c.isDigit = true) (hn : number? (c :: rest) = some n) :
    Term.read (c :: rest) = .ok (.constant n) := by
  rw [Term.read, hc.isQuote, hdigit, hn]
  · rfl
  · rintro rfl -
    exact absurd hc (by decide)

theorem read_of_not_isDigit {c : Char} {rest : List Char} (hc : IsCapital c)
    (hdigit : c.isDigit = false) :
    Term.read (c :: rest) = .ok (.symbol (String.ofList (upper (c :: rest)))) := by
  rw [Term.read, hc.isQuote, hdigit]
  · rfl
  · rintro rfl -
    exact absurd hc (by decide)

variable {symbols : Symbols} {here : UInt16} {b : UInt8} {bs : List UInt8}

/-- An expression that is a single constant. -/
theorem evaluate_constant {text : List Char} {n : Nat} (h : Capitals text) (hne : text ≠ [])
    (hread : Term.read text = .ok (.constant n)) (hn : n ≤ 0x7FFFFFFFFFFFFFFF) :
    evaluate symbols here text = .ok n := by
  have hterms : splitTerms text = .ok [⟨false, text⟩] := splitTermsFrom_capitals h text [] []
  have hfits : FitsSigned64 n := by
    rw [FitsSigned64]
    omega
  simp only [evaluate, trim_of_tight h.unbroken.tight, List.isEmpty_iff, if_neg hne, hterms,
    sumTerms, hread, bind, Except.bind, Term.value, Bool.false_eq_true, if_false, Int.zero_add,
    if_pos hfits]

/-- An expression that is a single name without a meaning. -/
theorem evaluate_undefined {text : List Char} {name : String} (h : Capitals text)
    (hne : text ≠ []) (hread : Term.read text = .ok (.symbol name))
    (hname : symbols.get? name = none) :
    evaluate symbols here text = .error (.undefinedSymbol name) := by
  have hterms : splitTerms text = .ok [⟨false, text⟩] := splitTermsFrom_capitals h text [] []
  simp only [evaluate, trim_of_tight h.unbroken.tight, List.isEmpty_iff, if_neg hne, hterms,
    sumTerms, hread, bind, Except.bind, Term.value, hname]

theorem hexOperand_ne_nil : hexOperand bs ≠ [] := by
  rw [hexOperand]
  exact List.append_ne_nil_of_right_ne_nil _ (List.cons_ne_nil _ _)

/-- The first character is a digit for the bytes below A0H. -/
theorem isDigit_leading (b : UInt8) :
    (Hex.digit (b.toNat / 16 % 16)).isDigit = decide (b < 0xA0) := by
  have hleading : b.toNat / 16 % 16 < 10 ↔ b < 0xA0 := by
    have := b.toNat_lt
    rw [UInt8.lt_iff_toNat_lt]
    change _ ↔ b.toNat < 160
    omega
  rw [Hex.isDigit_digit _ (Nat.mod_lt _ (by decide))]
  exact decide_eq_decide.mpr hleading

/-- With a digit in front the operand has the value of its bytes. -/
theorem evaluate_hexOperand (hb : b < 0xA0)
    (hsmall : Hex.value 0 (b :: bs) ≤ 0x7FFFFFFFFFFFFFFF) :
    evaluate symbols here (hexOperand (b :: bs)) = .ok (Hex.value 0 (b :: bs)) := by
  have hread : Term.read (hexOperand (b :: bs)) = .ok (.constant (Hex.value 0 (b :: bs))) := by
    have hnumber := number?_hexOperand hsmall
    rw [hexOperand_cons] at hnumber ⊢
    refine read_of_isDigit (Hex.isCapital_digit _ (Nat.mod_lt _ (by decide))) ?_ hnumber
    rw [isDigit_leading, decide_eq_true hb]
  exact evaluate_constant (capitals_hexOperand _) hexOperand_ne_nil hread hsmall

/-- With a letter in front the operand is a name. -/
theorem evaluate_hexOperand_undefined (hb : ¬b < 0xA0)
    (hname : symbols.get? (String.ofList (hexOperand (b :: bs))) = none) :
    evaluate symbols here (hexOperand (b :: bs)) =
      .error (.undefinedSymbol (String.ofList (hexOperand (b :: bs)))) := by
  have hread : Term.read (hexOperand (b :: bs)) =
      .ok (.symbol (String.ofList (hexOperand (b :: bs)))) := by
    have hupper := (capitals_hexOperand (b :: bs)).upper
    rw [hexOperand_cons] at hupper ⊢
    rw [read_of_not_isDigit (Hex.isCapital_digit _ (Nat.mod_lt _ (by decide))), hupper]
    rw [isDigit_leading, decide_eq_false hb]
  exact evaluate_undefined (capitals_hexOperand _) hexOperand_ne_nil hread hname

end Assembler

end Cpm80
