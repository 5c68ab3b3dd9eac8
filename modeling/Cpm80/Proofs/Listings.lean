import Cpm80.Proofs.Layout
import Cpm80.Proofs.Passes
import Cpm80.Proofs.RenderedLines

/-!
# Assembling a listing

A listing shows instructions one by one. Assembled again, each line gives the bytes that it
shows, at the address where they were, unless its value is shown with a letter in front: there
the assembler finds an undefined symbol. So a listing gives its bytes back exactly if
no value has a first digit above nine.
-/
namespace Cpm80

open Text Assembler

namespace Instruction

/-- The name of an operation that is not a directive. -/
def IsMnemonic (name : String) : Prop :=
  Capitals name.toList ∧ name.toList ≠ [] ∧ Operation.ofMnemonic name = .instruction name

instance (name : String) : Decidable (IsMnemonic name) :=
  inferInstanceAs (Decidable (_ ∧ _))

theorem isMnemonic_mnemonic (i : Instruction) (h : i.isDefined) : IsMnemonic i.mnemonic := by
  cases i with
  | undefined => cases h
  | arithmetic op r =>
    rw [mnemonic]
    cases op <;> decide
  | arithmeticImmediate op => cases op <;> decide
  | jumpIf c | callIf c | retIf c => cases c <;> decide
  | _ =>
    rw [mnemonic]
    decide

theorem render_toList (i : Instruction) (low high : UInt8) :
    (i.render low high).toList = lineOf i.mnemonic.toList (i.operands.map (·.shown low high)) := by
  rw [render]
  split
  case h_1 hnone => rw [hnone, List.map_nil, lineOf]
  case h_2 hsome =>
    have hmap : i.operands.map (·.shown low high) ≠ [] := by
      rw [Ne, List.map_eq_nil_iff]
      exact hsome
    rw [lineOf_of_ne_nil hmap, String.toList_append, String.toList_append,
      String.toList_intercalate, List.map_map, List.append_assoc]
    rfl

end Instruction

namespace Assembler

theorem isOperandText_hexOperand (b : UInt8) (bs : List UInt8) :
    IsOperandText (hexOperand (b :: bs)) := by
  refine ⟨hexOperand_ne_nil, capitals_hexOperand _, ?_⟩
  have hdigit : ∀ n < 16, Hex.digit n ≠ 'Q' := by decide
  intro hq
  rcases List.mem_append.mp hq with hq | hq
  · obtain ⟨n, hn, heq⟩ := Hex.mem_bytes hq
    exact hdigit n hn heq.symm
  · exact absurd hq (by decide)

theorem isOperandText_shown (low high : UInt8) {forms : List OperandForm}
    (h : Instruction.Written forms) : ∀ form ∈ forms, IsOperandText (form.shown low high) := by
  have hregister : ∀ r ∈ registerNames, IsOperandText r.toList := by decide
  have hvector : ∀ n : Fin 8, IsOperandText [Hex.digit n] := by decide
  induction h with
  | nil => simp
  | named hr hrest ih =>
    rw [List.forall_mem_cons]
    exact ⟨hregister _ hr, ih⟩
  | vector n =>
    rw [List.forall_mem_singleton, OperandForm.shown_vector]
    exact hvector n
  | data8 =>
    rw [List.forall_mem_singleton, OperandForm.shown_data8]
    exact isOperandText_hexOperand low []
  | data16 =>
    rw [List.forall_mem_singleton, OperandForm.shown_data16]
    exact isOperandText_hexOperand high [low]
  | address =>
    rw [List.forall_mem_singleton, OperandForm.shown_address]
    exact isOperandText_hexOperand high [low]

/-! ## Encodings and their lines -/

open Instruction

/-- The encoding of an instruction: a defined opcode with its operand bytes. -/
def IsEncoding (code : List UInt8) : Prop :=
  ∃ opcode operands, code = opcode :: operands ∧ (ofOpcode opcode).isDefined ∧
    code.length = (ofOpcode opcode).size

/-- What a disassembler shows of encodings, line by line. -/
def listing (codes : List (List UInt8)) : List Char :=
  codes.flatMap fun code => (disassemble code).toList ++ ['\n']

/-- The statement that the line of an encoding makes. -/
def shownStatement (code : List UInt8) : Statement :=
  let i := ofOpcode (code.getD 0 0)
  ⟨none, some (.instruction i.mnemonic), i.operands.map (·.shown (code.getD 1 0) (code.getD 2 0))⟩

/-- The bytes that instructions take from the two bytes after the opcode. -/
theorem flatMap_bytes (low high : UInt8) {forms : List OperandForm} (h : Written forms) :
    forms.flatMap (·.bytes low high) = [low, high].take (OperandForm.totalWidth forms) := by
  induction h with
  | named hr hrest ih =>
    rw [List.flatMap_cons, ih, OperandForm.totalWidth, OperandForm.width, Nat.zero_add]
    rfl
  | _ => rfl

theorem totalWidth_le {forms : List OperandForm} (h : Written forms) :
    OperandForm.totalWidth forms ≤ 2 := by
  induction h with
  | named hr hrest ih => rwa [OperandForm.totalWidth, OperandForm.width, Nat.zero_add]
  | vector n => exact Nat.zero_le 2
  | _ => decide

/-- An encoding is made of its opcode and the bytes of its operands. -/
theorem IsEncoding.eq_cons {code : List UInt8} (h : IsEncoding code) :
    (ofOpcode (code.getD 0 0)).isDefined ∧
      code = code.getD 0 0 :: (ofOpcode (code.getD 0 0)).operands.flatMap
        (·.bytes (code.getD 1 0) (code.getD 2 0)) := by
  obtain ⟨opcode, operands, rfl, hdefined, hlength⟩ := h
  have hwritten := written_operands (ofOpcode opcode)
  have hwidth := totalWidth_le hwritten
  rw [List.length_cons, Instruction.size, Nat.add_comm, Nat.add_left_cancel_iff] at hlength
  refine ⟨hdefined, ?_⟩
  simp only [List.getD_cons_zero, List.getD_cons_succ, flatMap_bytes _ _ hwritten, ← hlength]
  rw [← hlength] at hwidth
  cases operands with
  | nil => rfl
  | cons low operands =>
    cases operands with
    | nil => rfl
    | cons high operands =>
      have hnil : operands = [] := by
        rw [List.length_cons, List.length_cons] at hwidth
        exact List.length_eq_zero_iff.mp (by omega)
      rw [hnil]
      rfl

theorem IsEncoding.length_eq {code : List UInt8} (h : IsEncoding code) :
    code.length = (ofOpcode (code.getD 0 0)).size := by
  obtain ⟨opcode, operands, rfl, -, hlength⟩ := h
  exact hlength

theorem disassemble_toList (code : List UInt8) :
    (disassemble code).toList =
      lineOf (ofOpcode (code.getD 0 0)).mnemonic.toList (shownStatement code).operands :=
  render_toList _ _ _

theorem isOperandText_of_mem_shownStatement (code : List UInt8) :
    ∀ text ∈ (shownStatement code).operands, IsOperandText text := by
  intro text htext
  obtain ⟨form, hform, rfl⟩ := List.mem_map.mp htext
  exact isOperandText_shown _ _ (written_operands _) form hform

theorem read_disassemble {code : List UInt8} (h : IsEncoding code) :
    Statement.read (disassemble code).toList = .ok (some (shownStatement code)) := by
  obtain ⟨hcapitals, hne, hoperation⟩ := isMnemonic_mnemonic _ h.eq_cons.1
  rw [disassemble_toList, read_lineOf hcapitals (isOperandText_of_mem_shownStatement code) hne,
    String.ofList_toList, hoperation]
  rfl

theorem lines_listing {codes : List (List UInt8)} (h : ∀ code ∈ codes, IsEncoding code) :
    lines (listing codes) = codes.map fun code => (disassemble code).toList := by
  rw [listing, ← List.flatMap_map (fun code => (disassemble code).toList)
    (fun line => line ++ ['\n'])]
  apply lines_flatMap
  intro line hline
  obtain ⟨code, hcode, rfl⟩ := List.mem_map.mp hline
  have hcapitals := (isMnemonic_mnemonic _ (h code hcode).eq_cons.1).1
  rw [disassemble_toList]
  have hchars := isLineChar_lineOf hcapitals (isOperandText_of_mem_shownStatement code)
  exact ⟨fun hfeed => absurd (hchars _ hfeed) (by decide),
    fun hreturn => absurd (hchars _ hreturn) (by decide)⟩

/-- Statements with the numbers of the lines from `line` on. -/
def numberedFrom (line : Nat) : List Statement → List (Nat × Statement)
  | [] => []
  | st :: rest => (line, st) :: numberedFrom (line + 1) rest

theorem readFrom_disassemble {codes : List (List UInt8)} (h : ∀ code ∈ codes, IsEncoding code)
    (line : Nat) (done : Source) :
    Source.readFrom line done (codes.map fun code => (disassemble code).toList) =
      ⟨done.statements.reverse ++ numberedFrom line (codes.map shownStatement),
        done.diagnostics.reverse⟩ := by
  induction codes generalizing line done with
  | nil =>
    rw [List.map_nil, List.map_nil, Source.readFrom, numberedFrom, List.append_nil]
    rfl
  | cons code codes ih =>
    have hread := read_disassemble (h code List.mem_cons_self)
    have hfinish : (shownStatement code).operation ≠ some .finish := by
      rw [shownStatement]
      simp
    simp only [List.map_cons, Source.readFrom, hread, if_neg hfinish]
    rw [ih fun code hcode => h code (List.mem_cons_of_mem _ hcode), List.reverse_cons,
      List.append_assoc, List.singleton_append]
    rfl

theorem read_listing {codes : List (List UInt8)} (h : ∀ code ∈ codes, IsEncoding code) :
    Source.read (listing codes) = ⟨numberedFrom 1 (codes.map shownStatement), []⟩ := by
  rw [Source.read, lines_listing h, readFrom_disassemble h]
  rfl

/-! ## The two passes -/

/-- What is found wrong with the lines of encodings, from number `line` on. -/
def misread (line : Nat) : List (List UInt8) → List Diagnostic
  | [] => []
  | code :: rest =>
    if LeadsWithDigit code.tail then misread (line + 1) rest
    else ⟨line, .undefinedSymbol (String.ofList (hexOperand code.tail.reverse))⟩ ::
      misread (line + 1) rest

section

variable {codes : List (List UInt8)}

theorem sizing_shownStatement {s : Sizing} {code : List UInt8} (hcode : IsEncoding code)
    (hfits : s.cursor.address.toNat + code.length ≤ 65536) :
    s.statement (shownStatement code) =
      ({ s with cursor := s.cursor.after (.over code.length) }, none) := by
  obtain ⟨hdefined, -⟩ := hcode.eq_cons
  have hmem : code.getD 0 0 ∈ withMnemonic (ofOpcode (code.getD 0 0)).mnemonic :=
    mem_withMnemonic.mpr ⟨hdefined, rfl⟩
  simp only [Sizing.statement, shownStatement, Sizing.operation]
  split
  case h_1 hnone =>
    rw [hnone] at hmem
    cases hmem
  case h_2 first rest hsome =>
    have hsize : (ofOpcode first).size = code.length := by
      rw [size_of_mem_withMnemonic (hsome ▸ List.mem_cons_self), ← size_eq_sizeOfMnemonic,
        hcode.length_eq]
    rw [hsize, Sizing.advance, Cursor.advance_of_le hfits]

/-- The sizing pass passes over every line, whatever its value looks like. -/
theorem pass_sizing (s : Sizing) (line : Nat) (good : List (Nat × Statement))
    (bad : List Diagnostic) (hcodes : ∀ code ∈ codes, IsEncoding code)
    (hfits : s.cursor.address.toNat + codes.flatten.length ≤ 65536) :
    pass Sizing.statement s good bad (numberedFrom line (codes.map shownStatement)) =
      ({ s with cursor := s.cursor.after (.over codes.flatten.length) },
        good.reverse ++ numberedFrom line (codes.map shownStatement), bad.reverse) := by
  induction codes generalizing s line good with
  | nil => simp [numberedFrom, pass, Cursor.after_over_zero]
  | cons code codes ih =>
    rw [List.flatten_cons, List.length_append] at hfits ⊢
    have hone := sizing_shownStatement (s := s) (hcodes code List.mem_cons_self) (by omega)
    have hrest : (s.cursor.after (.over code.length)).address.toNat + codes.flatten.length ≤
        65536 := by
      rw [Cursor.toNat_address_over_of_le (by omega)]
      omega
    rw [List.map_cons, numberedFrom, pass, hone]
    dsimp only
    rw [ih _ _ _ (fun code hcode => hcodes code (List.mem_cons_of_mem _ hcode)) hrest,
      Cursor.after_over_over, List.reverse_cons, List.append_assoc, List.singleton_append]

variable {symbols : Symbols} (hsymbols : ∀ name, symbols.get? name = none)

include hsymbols

theorem emission_shownStatement {s : Emission} {code : List UInt8} (hcode : IsEncoding code)
    (hfits : s.cursor.address.toNat + code.length ≤ 65536) :
    Emission.statement symbols s (shownStatement code) =
      if LeadsWithDigit code.tail then
        (s.appended code, none)
      else (s, some (.undefinedSymbol (String.ofList (hexOperand code.tail.reverse)))) := by
  obtain ⟨hdefined, hcons⟩ := hcode.eq_cons
  have hencode := encode_shown s.cursor.here hsymbols (code.getD 1 0) (code.getD 2 0) hdefined
  have htail := congrArg List.tail hcons
  rw [List.tail_cons] at htail
  rw [← htail] at hencode hcons
  simp only [Emission.statement, shownStatement, Emission.operation, hencode, reread]
  by_cases hleads : LeadsWithDigit code.tail
  · simp only [if_pos hleads, Except.map, ← hcons, Emission.emit_of_le hfits]
  · simp only [if_neg hleads, Except.map]

/-- The emitting pass reports the lines that are misread and emits all others. -/
theorem pass_emission (s : Emission) (line : Nat) (good : List (Nat × Statement))
    (bad : List Diagnostic) (hcodes : ∀ code ∈ codes, IsEncoding code)
    (hfits : s.cursor.address.toNat + codes.flatten.length ≤ 65536) :
    let result := pass (Emission.statement symbols) s good bad
      (numberedFrom line (codes.map shownStatement))
    result.1.cursor.origin = s.cursor.origin ∧
      result.1.image.toList =
        s.image.toList ++ (codes.filter fun code => LeadsWithDigit code.tail).flatten ∧
      result.2.2 = bad.reverse ++ misread line codes := by
  induction codes generalizing s line good bad with
  | nil => simp [numberedFrom, pass, misread]
  | cons code codes ih =>
    rw [List.flatten_cons, List.length_append] at hfits
    have hone := emission_shownStatement hsymbols (s := s) (hcodes code List.mem_cons_self)
      (by omega)
    have hrest : ∀ code ∈ codes, IsEncoding code :=
      fun code hcode => hcodes code (List.mem_cons_of_mem _ hcode)
    rw [List.map_cons, numberedFrom, pass, hone, misread]
    by_cases hleads : LeadsWithDigit code.tail
    · rw [if_pos hleads, if_pos hleads]
      have hmoved : (s.appended code).cursor.address.toNat + codes.flatten.length ≤ 65536 := by
        rw [Emission.appended, Cursor.toNat_address_over_of_le (by omega)]
        omega
      obtain ⟨horigin, himage, hdiagnostics⟩ := ih (s.appended code) (line + 1)
        ((line, shownStatement code) :: good) bad hrest hmoved
      refine ⟨horigin, ?_, hdiagnostics⟩
      rw [himage, List.filter_cons_of_pos (by simpa using hleads), List.flatten_cons,
        ← List.append_assoc]
      exact congrArg (· ++ _) Array.toList_appendList
    · rw [if_neg hleads, if_neg hleads]
      obtain ⟨horigin, himage, hdiagnostics⟩ := ih s (line + 1) good
        (⟨line, .undefinedSymbol (String.ofList (hexOperand code.tail.reverse))⟩ :: bad) hrest
        (by omega)
      refine ⟨horigin, ?_, ?_⟩
      · rw [himage, List.filter_cons_of_neg (by simpa using hleads)]
      · rw [hdiagnostics, List.reverse_cons, List.append_assoc, List.singleton_append]

end

theorem line_le_of_mem_misread {codes : List (List UInt8)} {line : Nat} :
    ∀ d ∈ misread line codes, line ≤ d.line := by
  induction codes generalizing line with
  | nil => simp [misread]
  | cons code codes ih =>
    intro d hd
    rw [misread] at hd
    split at hd
    case isTrue hleads =>
      have := ih d hd
      omega
    case isFalse hleads =>
      rcases List.mem_cons.mp hd with rfl | hd
      · exact Nat.le_refl line
      · have := ih d hd
        omega

/-- The diagnostics come line by line. -/
theorem pairwise_misread (codes : List (List UInt8)) (line : Nat) :
    (misread line codes).Pairwise fun x y => decide (x.line ≤ y.line) = true := by
  induction codes generalizing line with
  | nil => exact .nil
  | cons code codes ih =>
    rw [misread]
    split
    case isTrue hleads => exact ih (line + 1)
    case isFalse hleads =>
      refine .cons ?_ (ih (line + 1))
      intro d hd
      have := line_le_of_mem_misread d hd
      rw [decide_eq_true_eq]
      dsimp only
      omega

theorem misread_eq_nil_iff {codes : List (List UInt8)} {line : Nat} :
    misread line codes = [] ↔ ∀ code ∈ codes, LeadsWithDigit code.tail := by
  induction codes generalizing line with
  | nil => simp [misread]
  | cons code codes ih =>
    rw [misread, List.forall_mem_cons]
    split
    case isTrue hleads => rw [ih, and_iff_right hleads]
    case isFalse hleads =>
      constructor
      · intro h
        cases h
      · intro h
        exact absurd h.1 hleads

end Assembler

namespace Assembly

/-- A listing of instructions that fit between the origin and the top of memory. Exactly the values
with a letter in front are reported, as undefined symbols; without such a value the image is what
was listed. -/
theorem ofText_listing {codes : List (List UInt8)} {origin : UInt16}
    (hcodes : ∀ code ∈ codes, IsEncoding code)
    (hfits : origin.toNat + codes.flatten.length ≤ 65536) :
    let a := ofText (listing codes) origin
    a.diagnostics = misread 1 codes ∧
      (a.isOk ↔ ∀ code ∈ codes, LeadsWithDigit code.tail) ∧
      (a.isOk → a.origin = origin ∧ a.image.toList = codes.flatten) := by
  intro a
  have hsymbols : ∀ name, (SortedMap.empty : Symbols).get? name = none := fun _ => rfl
  have hsizing := pass_sizing ⟨.start origin, .empty⟩ 1 [] [] hcodes hfits
  obtain ⟨horigin, himage, hwrong⟩ := pass_emission hsymbols ⟨.start origin, #[]⟩ 1 [] [] hcodes
    hfits
  let emitted := pass (Emission.statement .empty) ⟨.start origin, #[]⟩ [] []
    (numberedFrom 1 (codes.map shownStatement))
  have ha : a = ⟨emitted.1.cursor.origin,
      if (misread 1 codes).isEmpty then emitted.1.image else #[], .empty, misread 1 codes⟩ := by
    have hsorted := List.mergeSort_of_pairwise (pairwise_misread codes 1)
    simp only [a, ofText, read_listing hcodes, hsizing, List.reverse_nil, List.nil_append, hwrong,
      hsorted]
    rfl
  have hok : a.isOk ↔ ∀ code ∈ codes, LeadsWithDigit code.tail := by
    rw [ha, isOk, List.isEmpty_iff, misread_eq_nil_iff]
  refine ⟨by rw [ha], hok, ?_⟩
  intro h
  have hleads := hok.mp h
  have hnone : misread 1 codes = [] := misread_eq_nil_iff.mpr hleads
  have hall : codes.filter (fun code => LeadsWithDigit code.tail) = codes := by
    rw [List.filter_eq_self]
    intro code hcode
    exact decide_eq_true (hleads code hcode)
  rw [hall] at himage
  rw [ha, hnone]
  exact ⟨horigin, himage⟩

/-- A program of three instructions. -/
def loopCodes : List (List UInt8) :=
  [[0x3E, 0x9F], [0xC3, 0xFA, 0x00], [0x76]]

/-- The program just below the end of the range that fits. -/
theorem ofText_listing_loopCodes :
    (∀ code ∈ loopCodes, IsEncoding code) ∧
      (ofText (listing loopCodes) 0xFFFA).isOk ∧
      (ofText (listing loopCodes) 0xFFFA).image.toList = loopCodes.flatten := by
  have hcodes : ∀ code ∈ loopCodes, IsEncoding code := by
    simp only [loopCodes, List.forall_mem_cons]
    exact ⟨⟨_, _, rfl, by decide, by decide⟩, ⟨_, _, rfl, by decide, by decide⟩,
      ⟨_, _, rfl, by decide, by decide⟩, List.forall_mem_nil _⟩
  obtain ⟨-, hok, himage⟩ := ofText_listing hcodes (by decide : (0xFFFA : UInt16).toNat + _ ≤ _)
  have hleads := hok.mpr (by decide)
  exact ⟨hcodes, hleads, (himage hleads).2⟩

/-- The listing of one instruction with the operand FFH is not read back. -/
theorem not_listing_roundtrip :
    ¬∀ (codes : List (List UInt8)) (origin : UInt16), (∀ code ∈ codes, IsEncoding code) →
      origin.toNat + codes.flatten.length ≤ 65536 →
      (ofText (listing codes) origin).isOk ∧
        (ofText (listing codes) origin).image.toList = codes.flatten := by
  intro hroundtrip
  have hcode : IsEncoding [0x3E, 0xFF] := ⟨_, _, rfl, by decide, by decide⟩
  have hwrong : (ofText (listing [[0x3E, 0xFF]]) 0x0100).isOk = false := by decide +kernel
  have hok := (hroundtrip [[0x3E, 0xFF]] 0x0100 (by simpa using hcode) (by decide)).1
  rw [hwrong] at hok
  cases hok

end Assembly

end Cpm80
