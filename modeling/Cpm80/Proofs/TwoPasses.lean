import Cpm80.Proofs.LongStrings
import Cpm80.Proofs.Passes

/-!
# The two passes agree

In a source without faults the sizing and the emitting pass reach every statement with the same
counter, because each statement has the same effect in both: the symbols it needs are defined
when it is sized, and keep their values. Modulo the 2^32 values that it has, the counter is
the origin and what has been emitted. If no string is too long for it, it never goes round, and so
the bytes of a statement lie where its label says.
-/
namespace Cpm80.Assembler

namespace Emission

variable {s s' : Emission} {symbols : Symbols} {here : UInt16} {st : Statement}

theorem statement_step (h : statement symbols s st = (s', none)) : s.Step s' := by
  rw [statement] at h
  split at h
  case h_1 hnone =>
    cases h
    exact .refl s
  case h_2 op hop => exact (operation_eq h).1

theorem size_append (image : Array UInt8) (code : List UInt8) :
    (image ++ code).size = image.size + code.length := by
  rw [← Array.length_toList, Array.toList_appendList, List.length_append, Array.length_toList]

/-! ## The counter with 32 bits -/

/-- The counter is the origin in effect plus the number of bytes emitted, as a number with
32 bits. -/
def Counts (s : Emission) : Prop :=
  s.cursor.address = s.cursor.origin.toUInt32 + UInt32.ofNat s.image.size

theorem counts_start (origin : UInt16) : Counts ⟨.start origin, #[]⟩ :=
  (UInt32.add_zero _).symm

theorem Counts.toNat_eq (h : s.Counts) :
    s.cursor.address.toNat = (s.cursor.origin.toNat + s.image.size) % 2 ^ 32 := by
  rw [h, UInt32.toNat_add, UInt32.toNat_ofNat', UInt16.toNat_toUInt32, Nat.add_mod_mod]

theorem Step.counts (h : s.Step s') (hs : s.Counts) : s'.Counts := by
  rw [Counts] at hs
  cases h with
  | emits code =>
    rw [Counts, appended, size_append, UInt32.ofNat_add, ← UInt32.add_assoc]
    exact congrArg (· + UInt32.ofNat code.length) hs
  | moves address hstart =>
    have hnone : UInt32.ofNat s.image.size = 0 := by
      rw [hstart] at hs
      exact UInt32.left_eq_add.mp hs
    rw [Counts, hnone, UInt32.add_zero]
    rfl

/-- A step only adds to the image. -/
theorem Step.exists_append (h : s.Step s') : ∃ code : List UInt8, s'.image = s.image ++ code := by
  cases h with
  | emits code => exact ⟨code, rfl⟩
  | moves address hstart => exact ⟨[], by simp⟩

/-- What a faultless run keeps, however long its strings are: the counter counts, and the image is
only added to. -/
theorem run_counts {statements : List (Nat × Statement)}
    (h : Faultless (statement symbols) s statements) :
    (s.Counts → (stateAfter (statement symbols) s statements).Counts) ∧
      ∃ code : List UInt8,
        (stateAfter (statement symbols) s statements).image = s.image ++ code := by
  induction statements generalizing s with
  | nil => exact ⟨id, [], by simp [stateAfter]⟩
  | cons numbered rest ih =>
    obtain ⟨hfirst, hrest⟩ := h
    have hstep := statement_step (Prod.ext rfl hfirst)
    obtain ⟨hcounts, back, hback⟩ := ih hrest
    obtain ⟨front, hfront⟩ := hstep.exists_append
    refine ⟨fun hs => hcounts (hstep.counts hs), front ++ back, ?_⟩
    rw [stateAfter, List.foldl_cons, ← stateAfter, hback, hfront, image_append_append]

/-! ## The counter within memory -/

/-- The counter is the origin in effect plus the number of bytes emitted, and not past the end of
memory. -/
structure Anchored (s : Emission) : Prop where
  address_eq : s.cursor.address.toNat = s.cursor.origin.toNat + s.image.size
  le_end : s.cursor.address.toNat ≤ 65536

theorem anchored_start (origin : UInt16) : Anchored ⟨.start origin, #[]⟩ where
  address_eq := origin.toNat_toUInt32
  le_end := Nat.le_trans (Nat.le_of_eq origin.toNat_toUInt32) (Nat.le_of_lt origin.toNat_lt)

theorem Anchored.size_eq_zero (h : s.Anchored)
    (hstart : s.cursor.address = s.cursor.origin.toUInt32) : s.image.size = 0 := by
  have haddress := h.address_eq
  rw [hstart, UInt16.toNat_toUInt32] at haddress
  omega

theorem Anchored.size_ne_zero (h : s.Anchored)
    (hemitted : s.cursor.address ≠ s.cursor.origin.toUInt32) : s.image.size ≠ 0 := by
  intro hsize
  apply hemitted
  rw [← UInt32.toNat_inj, h.address_eq, hsize, UInt16.toNat_toUInt32, Nat.add_zero]

/-- The counter stays anchored when it is moved over bytes that are not too many. -/
theorem anchored_emit (h : s.Anchored) {code : List UInt8} (hcode : code.length < maxMove) :
    (s.emit code).1.Anchored := by
  rw [emit]
  split
  case h_1 cursor hcursor =>
    refine ⟨?_, (Cursor.advance_eq_ok hcursor).2⟩
    have hsize : (s.image.appendList code).size = s.image.size + code.length :=
      size_append s.image code
    have haddress := Cursor.toNat_address_advance hcursor h.le_end hcode
    obtain ⟨rfl, -⟩ := Cursor.advance_eq_ok hcursor
    rw [hsize, haddress, h.address_eq, Nat.add_assoc]
    rfl
  case h_2 e hfail => exact h

theorem anchored_bytes (h : s.Anchored) {operands : List (List Char)}
    (hcountable : ∀ operand ∈ operands, dataSize operand < maxMove) :
    (s.bytes symbols here operands).1.Anchored := by
  induction operands generalizing s with
  | nil => exact h
  | cons operand rest ih =>
    obtain ⟨hone, hrest⟩ := List.forall_mem_cons.mp hcountable
    rw [bytes_cons]
    split
    case h_1 e hfail => exact h
    case h_2 code hcode =>
      have hshort : code.length < maxMove := (length_dataCode hcode).symm ▸ hone
      have hemitted := anchored_emit h hshort
      split
      case h_1 emitted hemit =>
        rw [hemit] at hemitted
        exact ih hemitted hrest
      case h_2 emitted e hemit =>
        rw [hemit] at hemitted
        exact hemitted

theorem anchored_words (h : s.Anchored) (operands : List (List Char)) :
    (s.words symbols here operands).1.Anchored := by
  induction operands generalizing s with
  | nil => exact h
  | cons operand rest ih =>
    rw [words]
    split
    case h_1 e hfail => exact h
    case h_2 w hw =>
      have hshort : [lowByte w, highByte w].length < maxMove := (by decide : 2 < maxMove)
      have hemitted := anchored_emit h hshort
      split
      case h_1 emitted hemit =>
        rw [hemit] at hemitted
        exact ih hemitted
      case h_2 emitted e hemit =>
        rw [hemit] at hemitted
        exact hemitted

/-- A gap ends in memory, and a new origin has no bytes behind it. -/
theorem Anchored.move {cursor : Cursor} {address : UInt16} {gap : Nat} (h : s.Anchored)
    (hmoved : s.cursor.moveTo address = .ok (cursor, gap)) :
    Anchored ⟨cursor, s.image.appendList (List.replicate gap 0)⟩ := by
  have haddress := h.address_eq
  have hsize : (s.image.appendList (List.replicate gap 0)).size = s.image.size + gap :=
    (size_append s.image _).trans (congrArg (s.image.size + ·) List.length_replicate)
  refine ⟨?_, Cursor.moveTo_le hmoved⟩
  rw [hsize]
  rcases Cursor.moveTo_cases hmoved with ⟨hstart, rfl, rfl⟩ | ⟨-, hend, rfl⟩
  · rw [h.size_eq_zero hstart]
    exact address.toNat_toUInt32
  · have hlt := address.toNat_lt
    rw [Cursor.toNat_address_over_of_le (by omega), haddress, Nat.add_assoc]
    rfl

theorem anchored_operation (h : s.Anchored) {op : Operation}
    (hcountable : op = .bytes → ∀ operand ∈ st.operands, dataSize operand < maxMove) :
    (s.operation symbols here st op).1.Anchored := by
  cases op with
  | finish | equate => exact h
  | origin =>
    rw [operation]
    split
    case h_1 e hfail => exact h
    case h_2 cursor gap hmoved =>
      obtain ⟨address, -, hmoved⟩ := bind_eq_ok.mp hmoved
      exact h.move hmoved
  | bytes =>
    rw [operation]
    split
    case isTrue hempty => exact h
    case isFalse hsome => exact anchored_bytes h (hcountable rfl)
  | words =>
    rw [operation]
    split
    case isTrue hempty => exact h
    case isFalse hsome => exact anchored_words h _
  | space =>
    rw [operation]
    split
    case h_1 e hfail => exact h
    case h_2 count hcount =>
      refine anchored_emit h ?_
      rw [List.length_replicate]
      exact Nat.lt_trans count.toNat_lt (by decide)
  | instruction mnemonic =>
    rw [operation]
    split
    case h_1 e hfail => exact h
    case h_2 code hcode =>
      refine anchored_emit h ?_
      rw [length_encode hcode]
      exact Nat.lt_of_le_of_lt (Instruction.sizeOfMnemonic_le _) (by decide)

theorem anchored_statement (h : s.Anchored) (hcountable : st.IsCountable) :
    (statement symbols s st).1.Anchored := by
  rw [statement]
  split
  case h_1 hnone => exact h
  case h_2 op hop =>
    exact anchored_operation h fun hbytes => hcountable (hop.trans (congrArg some hbytes))

theorem anchored_stateAfter (h : s.Anchored) (symbols : Symbols)
    {statements : List (Nat × Statement)}
    (hcountable : ∀ numbered ∈ statements, numbered.2.IsCountable) :
    (stateAfter (statement symbols) s statements).Anchored := by
  induction statements generalizing s with
  | nil => exact h
  | cons numbered rest ih =>
    obtain ⟨hone, hrest⟩ := List.forall_mem_cons.mp hcountable
    exact ih (anchored_statement h hone) hrest

/-- A step fixes the origin once there is an image. -/
theorem Step.origin_eq (h : s.Step s') (hs : s.Anchored) (hsome : s'.image.size ≠ 0) :
    s'.cursor.origin = s.cursor.origin := by
  cases h with
  | emits code => rfl
  | moves address hstart => exact absurd (hs.size_eq_zero hstart) hsome

theorem run_origin_eq {statements : List (Nat × Statement)} (hs : s.Anchored)
    (hcountable : ∀ numbered ∈ statements, numbered.2.IsCountable)
    (h : Faultless (statement symbols) s statements) (hsome : s.image.size ≠ 0) :
    (stateAfter (statement symbols) s statements).cursor.origin = s.cursor.origin := by
  induction statements generalizing s with
  | nil => rfl
  | cons numbered rest ih =>
    obtain ⟨hfirst, hrest⟩ := h
    obtain ⟨hone, hothers⟩ := List.forall_mem_cons.mp hcountable
    have hstep := statement_step (Prod.ext rfl hfirst)
    obtain ⟨front, hfront⟩ := hstep.exists_append
    have hlater : (statement symbols s numbered.2).1.image.size ≠ 0 := by
      rw [hfront, size_append]
      omega
    exact (ih (anchored_statement hs hone) hothers hrest hlater).trans (hstep.origin_eq hs hlater)

/-- What a statement of a faultless run emits lies in the final image at the counter minus the
origin, and the origin is the final one if it emits anything. -/
theorem exists_code {numbered : Nat × Statement} {rest : List (Nat × Statement)}
    (hs : s.Anchored)
    (hcountable : ∀ other ∈ numbered :: rest, other.2.IsCountable)
    (h : Faultless (statement symbols) s (numbered :: rest)) :
    let final := stateAfter (statement symbols) s (numbered :: rest)
    ∃ code : List UInt8, (statement symbols s numbered.2).1.image = s.image ++ code ∧
      (code ≠ [] → s.cursor.origin = final.cursor.origin) ∧
      (final.image.toList.drop (s.cursor.address.toNat - s.cursor.origin.toNat)).take code.length =
        code := by
  intro final
  obtain ⟨hone, hrest⟩ := List.forall_mem_cons.mp hcountable
  have hstep := statement_step (Prod.ext rfl h.1)
  obtain ⟨code, hcode⟩ := hstep.exists_append
  obtain ⟨-, back, hback⟩ := run_counts h.2
  refine ⟨code, hcode, ?_, ?_⟩
  · intro hne
    have hsome : (statement symbols s numbered.2).1.image.size ≠ 0 := by
      have := List.length_pos_iff.mpr hne
      rw [hcode, size_append]
      omega
    have hlater := run_origin_eq (anchored_statement hs hone) hrest h.2 hsome
    exact (hlater.trans (hstep.origin_eq hs hsome)).symm
  · have hparts : final.image = s.image ++ (code ++ back) := by
      rw [← image_append_append, ← hcode]
      exact hback
    have hoffset : s.cursor.address.toNat - s.cursor.origin.toNat = s.image.toList.length := by
      rw [hs.address_eq, Array.length_toList]
      omega
    rw [hparts, hoffset, Array.toList_appendList, List.drop_left, List.take_left]

end Emission

variable {sized sized' : Sizing} {emitted emitted' : Emission} {final : Symbols}
  {st : Statement}

theorem Sizing.statement_within (h : sized.statement st = (sized', none)) :
    sized.symbols.Within sized'.symbols ∧
      ∀ name, st.label = some name → st.operation ≠ some .equate →
        sized'.symbols.get? name = some sized.cursor.here := by
  obtain ⟨labelled, -, hlabelled, hlabel, hnone, hsome⟩ := Sizing.statement_eq h
  have hgrown : labelled.symbols.Within sized'.symbols := by
    cases hop : st.operation with
    | none => rw [hnone hop]; exact .refl _
    | some op => exact (Sizing.operation_eq (hsome op hop)).1
  refine ⟨hlabelled.trans hgrown, ?_⟩
  intro name hname hother
  exact hgrown name _ (hlabel name hname hother)

/-- The symbols that a faultless sizing pass has met stay. -/
theorem Sizing.run_within {statements : List (Nat × Statement)}
    (h : Faultless statement sized statements) :
    sized.symbols.Within (stateAfter statement sized statements).symbols := by
  induction statements generalizing sized with
  | nil => exact .refl _
  | cons numbered rest ih =>
    exact (statement_within (Prod.ext rfl h.1)).1.trans (ih h.2)

/-- One statement moves the counters of both passes alike. -/
theorem cursor_eq_of_statement (hcursor : sized.cursor = emitted.cursor)
    (hsized : sized.statement st = (sized', none))
    (hemitted : Emission.statement final emitted st = (emitted', none))
    (hwithin : sized'.symbols.Within final) : sized'.cursor = emitted'.cursor := by
  obtain ⟨labelled, hsame, -, -, hnone, hsome⟩ := Sizing.statement_eq hsized
  rw [Emission.statement] at hemitted
  cases hop : st.operation with
  | none =>
    rw [hop] at hemitted
    cases hemitted
    rw [hnone hop, hsame, hcursor]
  | some op =>
    rw [hop] at hemitted
    obtain ⟨hgrown, small, hsmall, hsizedCursor⟩ := Sizing.operation_eq (hsome op hop)
    obtain ⟨-, big, hbig, hemittedCursor⟩ := Emission.operation_eq hemitted
    -- the symbols known when the statement was sized were enough, so all of them give the same
    have heffect := effect_within (hgrown.trans hwithin) hsmall
    rw [hcursor, hbig] at heffect
    cases heffect
    rw [hsizedCursor, hemittedCursor, hsame, hcursor]

/-- Two faultless passes over the same statements end with the same counter. -/
theorem cursor_eq_of_run {statements : List (Nat × Statement)}
    (hcursor : sized.cursor = emitted.cursor)
    (hsizes : Faultless Sizing.statement sized statements)
    (hcodes : Faultless (Emission.statement final) emitted statements)
    (hwithin : (stateAfter Sizing.statement sized statements).symbols.Within final) :
    (stateAfter Sizing.statement sized statements).cursor =
      (stateAfter (Emission.statement final) emitted statements).cursor := by
  induction statements generalizing sized emitted with
  | nil => exact hcursor
  | cons numbered rest ih =>
    obtain ⟨hsize, hsizes⟩ := hsizes
    obtain ⟨hcode, hcodes⟩ := hcodes
    have hfirst := cursor_eq_of_statement hcursor (Prod.ext rfl hsize) (Prod.ext rfl hcode)
      ((Sizing.run_within hsizes).trans hwithin)
    exact ih hfirst hsizes hcodes hwithin

end Cpm80.Assembler

namespace Cpm80.Assembly

open Assembler

/-- No string among the data of a source is too long for the counter. -/
def IsCountable (text : List Char) : Prop :=
  ∀ numbered ∈ (Source.read text).statements, numbered.2.IsCountable

instance (text : List Char) : Decidable (IsCountable text) :=
  inferInstanceAs (Decidable (∀ numbered ∈ (Source.read text).statements, numbered.2.IsCountable))

/-- The two passes at a statement that both have reached: the counter is the same, and what
is left of both passes is without faults and leads to the assembly. -/
structure Reached (a : Assembly) (sized : Sizing) (emitted : Emission)
    (statements : List (Nat × Statement)) : Prop where
  cursor_eq : sized.cursor = emitted.cursor
  counts : emitted.Counts
  sizes : Faultless Sizing.statement sized statements
  codes : Faultless (Emission.statement a.symbols) emitted statements
  symbols_eq : a.symbols = (stateAfter Sizing.statement sized statements).symbols
  origin_eq :
    a.origin = (stateAfter (Emission.statement a.symbols) emitted statements).cursor.origin
  image_eq : a.image = (stateAfter (Emission.statement a.symbols) emitted statements).image

theorem emission_eq_stateAfter (symbols : Symbols) (origin : UInt16)
    (statements : List (Nat × Statement)) :
    emission symbols origin statements =
      stateAfter (Emission.statement symbols) ⟨.start origin, #[]⟩ statements :=
  pass_state _ [] _ []

theorem Assembles.reached {a : Assembly} {text : List Char} {origin : UInt16}
    (h : Assembles text origin a) {front statements : List (Nat × Statement)}
    (hsource : (Source.read text).statements = front ++ statements) :
    Reached a (sizing origin front) (emission a.symbols origin front) statements := by
  obtain ⟨hsymbols, horigin, himage, hsizes, hcodes⟩ := h
  rw [hsource] at hsymbols horigin himage hsizes hcodes
  rw [sizing_append] at hsymbols
  rw [emission_append] at horigin himage
  obtain ⟨hsizesFront, hsizesRest⟩ := hsizes.append
  obtain ⟨hcodesFront, hcodesRest⟩ := hcodes.append
  have hsizing : stateAfter Sizing.statement ⟨.start origin, .empty⟩ front =
      sizing origin front := (pass_state _ [] _ []).symm
  have hemission := (emission_eq_stateAfter a.symbols origin front).symm
  have hwithin : (sizing origin front).symbols.Within a.symbols := by
    rw [hsymbols]
    exact Sizing.run_within (hsizing ▸ hsizesRest)
  constructor
  case cursor_eq =>
    rw [← hsizing, ← hemission]
    exact cursor_eq_of_run rfl hsizesFront hcodesFront (hsizing ▸ hwithin)
  case counts =>
    exact hemission ▸ (Emission.run_counts hcodesFront).1 (Emission.counts_start origin)
  case sizes => exact hsizing ▸ hsizesRest
  case codes => exact hemission ▸ hcodesRest
  case symbols_eq => exact hsymbols
  case origin_eq => exact horigin
  case image_eq => exact himage

/-- How an assembly without faults places a statement that the passes reach in the states
`sized` and `emitted` and leave in the states `sized'` and `emitted'`. -/
structure Placed (a : Assembly) (sized sized' : Sizing) (emitted emitted' : Emission)
    (st : Statement) : Prop where
  /-- Both passes reach the statement with one counter. -/
  counter_eq : sized.cursor.address = emitted.cursor.address
  /-- The counter is the origin in effect plus the number of bytes emitted so far, modulo the
  number of its values. -/
  counts : emitted.cursor.address.toNat =
    (emitted.cursor.origin.toNat + emitted.image.size) % 2 ^ 32
  counts' : emitted'.cursor.address.toNat =
    (emitted'.cursor.origin.toNat + emitted'.image.size) % 2 ^ 32
  /-- A label in front of anything but an `EQU` stands for the counter. -/
  label_eq : ∀ name, st.label = some name → st.operation ≠ some .equate →
    a.symbols.get? name = some (UInt16.ofNat emitted.cursor.address.toNat)
  /-- In both passes the operation is carried out at the counter, for which `$` stands. -/
  sized_here : ∀ op, st.operation = some op → ∃ labelled : Sizing,
    labelled.cursor = sized.cursor ∧
      labelled.operation (UInt16.ofNat emitted.cursor.address.toNat) st op = (sized', none)
  emitted_here : ∀ op, st.operation = some op →
    emitted.operation a.symbols (UInt16.ofNat emitted.cursor.address.toNat) st op =
      (emitted', none)
  dollar_eq : ∀ symbols, Term.here.value symbols (UInt16.ofNat emitted.cursor.address.toNat) =
    .ok ((emitted.cursor.address.toNat % 65536 : Nat) : Int)

/-- Where the bytes of the statement are. -/
structure Lies (a : Assembly) (emitted emitted' : Emission) : Prop where
  /-- The counter is the origin in effect plus the number of bytes emitted so far. -/
  anchored : emitted.cursor.address.toNat = emitted.cursor.origin.toNat + emitted.image.size
  anchored' : emitted'.cursor.address.toNat = emitted'.cursor.origin.toNat + emitted'.image.size
  /-- Once there are any, the origin no longer moves. -/
  origin_fixed : emitted.image.size ≠ 0 → emitted.cursor.origin = a.origin
  origin_fixed' : emitted'.image.size ≠ 0 → emitted'.cursor.origin = a.origin
  /-- What the statement emits lies in the image at the counter minus the origin. -/
  code_eq : ∃ code : List UInt8, emitted'.image = emitted.image ++ code ∧
    (code ≠ [] → emitted.cursor.origin = a.origin) ∧
    (a.image.toList.drop (emitted.cursor.address.toNat - emitted.cursor.origin.toNat)).take
      code.length = code

section

variable {a : Assembly} {sized : Sizing} {emitted : Emission} {line : Nat} {st : Statement}
  {rest : List (Nat × Statement)}

theorem Reached.placed (h : Reached a sized emitted ((line, st) :: rest)) :
    Placed a sized (sized.statement st).1 emitted (Emission.statement a.symbols emitted st).1
      st := by
  obtain ⟨hcursor, hcounts, hsizes, hcodes, hsymbols, -, -⟩ := h
  have hsized : sized.statement st = ((sized.statement st).1, none) := Prod.ext rfl hsizes.1
  have hemitted : Emission.statement a.symbols emitted st =
      ((Emission.statement a.symbols emitted st).1, none) := Prod.ext rfl hcodes.1
  have hhere : UInt16.ofNat emitted.cursor.address.toNat = emitted.cursor.here :=
    UInt16.ofNat_uInt32ToNat _
  constructor
  case counter_eq => rw [hcursor]
  case counts => exact hcounts.toNat_eq
  case counts' => exact ((Emission.statement_step hemitted).counts hcounts).toNat_eq
  case label_eq =>
    intro name hname hother
    have hlabel := (Sizing.statement_within hsized).2 name hname hother
    rw [hsymbols, hhere, ← hcursor]
    exact Sizing.run_within hsizes.2 name _ hlabel
  case sized_here =>
    intro op hop
    obtain ⟨labelled, hsame, -, -, -, hsome⟩ := Sizing.statement_eq hsized
    have hdone := hsome op hop
    rw [hcursor, ← hhere] at hdone
    exact ⟨labelled, hsame, hdone⟩
  case emitted_here =>
    intro op hop
    have hoperation : Emission.statement a.symbols emitted st =
        emitted.operation a.symbols emitted.cursor.here st op := by
      rw [Emission.statement, hop]
    rw [hhere]
    exact hoperation.symm.trans hemitted
  case dollar_eq =>
    intro symbols
    rw [Term.value, UInt16.toNat_ofNat']

theorem Reached.lies (h : Reached a sized emitted ((line, st) :: rest))
    (hanchored : emitted.Anchored)
    (hcountable : ∀ numbered ∈ (line, st) :: rest, numbered.2.IsCountable) :
    Lies a emitted (Emission.statement a.symbols emitted st).1 := by
  obtain ⟨-, -, -, hcodes, -, horigin, himage⟩ := h
  obtain ⟨hone, hothers⟩ := List.forall_mem_cons.mp hcountable
  have hanchored' : (Emission.statement a.symbols emitted st).1.Anchored :=
    Emission.anchored_statement hanchored hone
  constructor
  case anchored => exact hanchored.address_eq
  case anchored' => exact hanchored'.address_eq
  case origin_fixed =>
    intro hsome
    rw [horigin, Emission.run_origin_eq hanchored hcountable hcodes hsome]
  case origin_fixed' =>
    intro hsome
    rw [horigin]
    exact (Emission.run_origin_eq hanchored' hothers hcodes.2 hsome).symm
  case code_eq =>
    rw [himage, horigin]
    exact Emission.exists_code hanchored hcountable hcodes

end

/-- The passes over a source without faults agree on each of its statements. If the counter can
count the strings of the source, the bytes of the statement lie where the counter says. -/
theorem passes_agree {text : List Char} {origin : UInt16} (hok : (ofText text origin).isOk)
    {front rest : List (Nat × Statement)} {line : Nat} {st : Statement}
    (hsource : (Source.read text).statements = front ++ (line, st) :: rest) :
    let a := ofText text origin
    let emitted := emission a.symbols origin front
    let emitted' := emission a.symbols origin (front ++ [(line, st)])
    Placed a (sizing origin front) (sizing origin (front ++ [(line, st)])) emitted emitted' st ∧
      (IsCountable text → Lies a emitted emitted') := by
  intro a emitted emitted'
  have hreached := (assembles_of_isOk hok).reached hsource
  have hafter : emitted' = (Emission.statement a.symbols emitted st).1 := emission_append _ _ _ _
  rw [sizing_append, hafter]
  refine ⟨hreached.placed, fun hcountable => ?_⟩
  rw [IsCountable, hsource] at hcountable
  obtain ⟨hfront, hrest⟩ := List.forall_mem_append.mp hcountable
  refine hreached.lies ?_ hrest
  rw [emission_eq_stateAfter]
  exact Emission.anchored_stateAfter (Emission.anchored_start origin) _ hfront

/-- A source that moves its origin before it emits the address of a label. -/
def hereSource : List Char :=
  "ORG 200H\nHERE: DW $".toList

def hereFront : List (Nat × Statement) :=
  [(1, { operation := some .origin, operands := ["200H".toList] })]

def hereStatement : Statement :=
  { label := some "HERE", operation := some .words, operands := ["$".toList] }

theorem passes_agree_hereSource :
    (ofText hereSource 0x0100).isOk ∧ IsCountable hereSource ∧
      (Source.read hereSource).statements = hereFront ++ (2, hereStatement) :: [] ∧
      (ofText hereSource 0x0100).symbols.get? "HERE" = some 0x0200 ∧
      Lies (ofText hereSource 0x0100)
        (emission (ofText hereSource 0x0100).symbols 0x0100 hereFront)
        (emission (ofText hereSource 0x0100).symbols 0x0100
          (hereFront ++ [(2, hereStatement)])) := by
  have hok : (ofText hereSource 0x0100).isOk := by decide +kernel
  have hsource : (Source.read hereSource).statements =
      hereFront ++ (2, hereStatement) :: [] := by
    decide +kernel
  have hcountable : IsCountable hereSource := by decide +kernel
  obtain ⟨hplaced, hlies⟩ := passes_agree hok hsource
  have hlabel := hplaced.label_eq "HERE" rfl (by decide)
  have hcounter : (emission (ofText hereSource 0x0100).symbols 0x0100 hereFront).cursor.address =
      0x0200 := by
    decide +kernel
  rw [hcounter] at hlabel
  exact ⟨hok, hcountable, hsource, hlabel, hlies hcountable⟩

/-- A string of 2^32 bytes does not move the counter: behind all these bytes it is still at the
origin. -/
theorem counter_of_longString :
    let l := DataLine.ofLength (2 ^ 32)
    let a := ofText l.text 0x0100
    let emitted := emission a.symbols 0x0100 [(1, l.statement)]
    l.text = "DB '".toList ++ List.replicate (2 ^ 32) 'A' ++ ['\''] ∧
      a.isOk ∧ (Source.read l.text).statements = [(1, l.statement)] ∧
      emitted.cursor.origin = 0x0100 ∧ emitted.image.size = 2 ^ 32 ∧
      emitted.cursor.address.toNat = 0x0100 ∧
      emitted.cursor.address.toNat ≠ emitted.cursor.origin.toNat + emitted.image.size := by
  have hmod : ((0x0100 : UInt16).toNat + 2 ^ 32) % 2 ^ 32 = 0x0100 := by decide
  have hinside := Nat.le_trans (Nat.le_of_eq hmod) (by decide : 0x0100 ≤ 65536)
  have hsource := congrArg Source.statements (DataLine.read_ofLength (2 ^ 32))
  obtain ⟨horigin, haddress, hsize⟩ := DataLine.emission_ofLength hinside
    (ofText (DataLine.ofLength (2 ^ 32)).text 0x0100).symbols
  refine ⟨DataLine.text_ofLength _, (DataLine.ofText_ofLength hinside).1, hsource, horigin, hsize,
    haddress.trans hmod, ?_⟩
  rw [haddress, hmod, horigin, hsize]
  decide

end Cpm80.Assembly
