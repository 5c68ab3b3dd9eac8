import Cpm80.Proofs.TextFiles

/-!
# Bytes read in pieces

The lenient reader can be given bytes all at once or cut into pieces, each of which it reads on its
own. What it reads is the same if it stops by itself at each of the cuts, as it does where a
character ends. Otherwise a cut falls into what it takes as one, a character or a broken run, and
both parts of that are shown as broken, so it reads more characters than at once. No other cut makes
up for that: the text of the pieces is never shorter than that of the whole, and it is the same only
if all cuts are where the reader stops.
-/
namespace Cpm80.Utf8

variable {b : UInt8} {bytes front back tail rest : List UInt8}

/-! ## Where the reader stops -/

/-- A reader of the bytes comes to stand in front of the tail. -/
inductive StopsAt : (bytes tail : List UInt8) → Prop
  | here {bytes : List UInt8} : StopsAt bytes bytes
  | next {b : UInt8} {rest tail : List UInt8} (h : StopsAt (next b rest).2 tail) :
    StopsAt (b :: rest) tail

namespace StopsAt

theorem trans {middle : List UInt8} (h : StopsAt bytes middle) (h' : StopsAt middle tail) :
    StopsAt bytes tail := by
  induction h with
  | here => exact h'
  | next _ ih => exact .next (ih h')

theorem length_le (h : StopsAt bytes tail) : tail.length ≤ bytes.length := by
  induction h with
  | here => exact Nat.le_refl _
  | @next b rest _ _ ih => exact ih.trans ((length_next b rest).trans (Nat.le_succ _))

/-- From the earlier of two places where it stops the reader gets to the later one. -/
theorem of_length_le {middle : List UInt8} (h : StopsAt bytes middle) (h' : StopsAt bytes tail)
    (hle : tail.length ≤ middle.length) : StopsAt middle tail := by
  induction h with
  | here => exact h'
  | @next b rest middle h ih =>
    cases h' with
    | here =>
      have hshorter := h.length_le.trans (length_next b rest)
      rw [List.length_cons] at hle
      omega
    | next h' => exact ih h' hle

/-- It stops behind ASCII characters. -/
theorem of_ascii (h : ∀ b ∈ front, b.toNat < 0x80) : StopsAt (front ++ back) back := by
  induction front with
  | nil => exact .here
  | cons b front ih =>
    obtain ⟨hb, hfront⟩ := List.forall_mem_cons.mp h
    refine .next ?_
    rw [next_of_ascii hb]
    exact ih hfront

end StopsAt

/-! ## A step with more bytes behind -/

/-- What a step takes of bytes with others behind them, compared with what it takes of them alone:
it gets on without those behind, or it has gone to the end without a character and goes on to take
some of them. -/
inductive Behind (back : List UInt8) (alone whole : Option Char × List UInt8) : Prop
  | within (h : whole = (alone.1, alone.2 ++ back))
  | across (eaten : List UInt8) (halone : alone = (none, [])) (hsome : eaten ≠ [])
      (htails : ∀ c ∈ eaten, IsTail c) (hback : back = eaten ++ whole.2)

/-- What is taken after the first two bytes goes on with a character. -/
theorem exists_eaten_finish (more bits : Nat) (bytes : List UInt8) :
    ∃ eaten, (∀ c ∈ eaten, IsTail c) ∧ bytes = eaten ++ (finish more bits bytes).2 := by
  induction more generalizing bits bytes with
  | zero => exact ⟨[], List.forall_mem_nil _, rfl⟩
  | succ more ih =>
    cases bytes with
    | nil => exact ⟨[], List.forall_mem_nil _, rfl⟩
    | cons c rest =>
      rw [finish]
      split
      case isTrue hc =>
        obtain ⟨eaten, htails, hrest⟩ := ih (bits * 64 + (c.toNat - 0x80)) rest
        have hfirst : IsTail c := hc.imp UInt8.le_iff_toNat_le.mp UInt8.le_iff_toNat_le.mp
        exact ⟨c :: eaten, List.forall_mem_cons.mpr ⟨hfirst, htails⟩,
          congrArg (List.cons c) hrest⟩
      case isFalse => exact ⟨[], List.forall_mem_nil _, rfl⟩

theorem Behind.of_isTail {c : UInt8} (hc : IsTail c) (more bits : Nat) (rest : List UInt8) :
    Behind (c :: rest) (none, []) (finish more bits rest) := by
  obtain ⟨eaten, htails, hrest⟩ := exists_eaten_finish more bits rest
  exact .across (c :: eaten) rfl (List.cons_ne_nil _ _) (List.forall_mem_cons.mpr ⟨hc, htails⟩)
    (congrArg (List.cons c) hrest)

theorem finish_append (more bits : Nat) (front back : List UInt8) :
    Behind back (finish more bits front) (finish more bits (front ++ back)) := by
  induction more generalizing bits front with
  | zero => exact .within rfl
  | succ more ih =>
    cases front with
    | nil =>
      cases back with
      | nil => exact .within rfl
      | cons c rest =>
        rw [List.nil_append, finish, finish]
        split
        case isTrue hc =>
          exact .of_isTail (hc.imp UInt8.le_iff_toNat_le.mp UInt8.le_iff_toNat_le.mp) _ _ _
        case isFalse => exact .within rfl
    | cons c front =>
      rw [List.cons_append, finish, finish]
      split
      case isTrue => exact ih _ front
      case isFalse => exact .within rfl

theorem isTail_of_lead {q : Lead} {c : UInt8} (hq : lead? b = some q)
    (hc : q.low ≤ c ∧ c ≤ q.high) : IsTail c := by
  have hlow := UInt8.le_iff_toNat_le.mp hc.1
  have hhigh := UInt8.le_iff_toNat_le.mp hc.2
  unfold lead? at hq
  repeat'
    split at hq
  all_goals
    simp only [reduceCtorEq, Option.some.injEq] at hq
  all_goals
    subst hq
    simp only [UInt8.reduceToNat] at hlow hhigh
    exact ⟨by omega, by omega⟩

theorem next_append (b : UInt8) (front back : List UInt8) :
    Behind back (next b front) (next b (front ++ back)) := by
  by_cases hascii : b.toNat < 0x80
  · rw [next_of_ascii hascii, next_of_ascii hascii]
    exact .within rfl
  have hb : ¬b < 0x80 := fun hlt => hascii (UInt8.lt_iff_toNat_lt.mp hlt)
  simp only [next, if_neg hb]
  cases hq : lead? b with
  | none => exact .within rfl
  | some q =>
    cases front with
    | nil =>
      cases back with
      | nil => exact .within rfl
      | cons c rest =>
        dsimp only [List.nil_append]
        split
        case isTrue hc => exact .of_isTail (isTail_of_lead hq hc) _ _ _
        case isFalse => exact .within rfl
    | cons c front =>
      dsimp only [List.cons_append]
      split
      case isTrue => exact finish_append _ _ front back
      case isFalse => exact .within rfl

/-! ## The text of the parts and of the whole -/

theorem decodeFrom_append (broken : Char) (done before : List Char) (bytes : List UInt8) :
    decodeFrom broken (done ++ before) bytes = before.reverse ++ decodeFrom broken done bytes := by
  induction done, bytes using decodeFrom.induct broken with
  | case1 done => rw [decodeFrom, decodeFrom, List.reverse_append]
  | case2 done b rest _ ih =>
    rw [decodeFrom, decodeFrom, ← ih]
    rfl

theorem decodeLenient_nil : decodeLenient [] = [] := by
  rw [decodeLenient, decodeFrom, List.reverse_nil]

theorem decodeLenient_cons (b : UInt8) (rest : List UInt8) :
    decodeLenient (b :: rest) =
      (next b rest).1.getD '\uFFFD' :: decodeLenient (next b rest).2 := by
  rw [decodeLenient, decodeFrom]
  exact decodeFrom_append _ [] [_] _

theorem next_of_isTail {c : UInt8} (hc : IsTail c) (rest : List UInt8) :
    next c rest = (none, rest) := by
  have hlow := hc.1
  have hhigh := hc.2
  have hascii : ¬c < 0x80 := by
    rw [UInt8.lt_iff_toNat_lt]
    exact Nat.not_lt.mpr hlow
  have hlead : lead? c = none := by
    rw [lead?, if_pos]
    rw [UInt8.lt_iff_toNat_lt]
    exact Nat.lt_of_le_of_lt hhigh (by decide)
  simp only [next, if_neg hascii, hlead]

/-- Bytes that only go on with a character are each shown as broken where none has begun. -/
theorem length_decodeLenient_tails (h : ∀ c ∈ front, IsTail c) (back : List UInt8) :
    (decodeLenient (front ++ back)).length = front.length + (decodeLenient back).length := by
  induction front with
  | nil => rw [List.nil_append, List.length_nil, Nat.zero_add]
  | cons c front ih =>
    obtain ⟨hc, hfront⟩ := List.forall_mem_cons.mp h
    rw [List.cons_append, decodeLenient_cons, next_of_isTail hc, List.length_cons,
      List.length_cons, ih hfront]
    omega

/-- If the reader stops at the cut, it reads the same in two parts. If not, it reads more, because
what it has taken across the cut is shown as broken in both. -/
theorem decodeLenient_cut (front back : List UInt8) :
    StopsAt (front ++ back) back ∧
        decodeLenient (front ++ back) = decodeLenient front ++ decodeLenient back ∨
      ¬StopsAt (front ++ back) back ∧ (decodeLenient (front ++ back)).length <
        (decodeLenient front).length + (decodeLenient back).length := by
  induction front using isValid.induct with
  | case1 =>
    left
    rw [decodeLenient_nil]
    exact ⟨.here, rfl⟩
  | case2 b front _ ih =>
    have hstops : StopsAt (b :: front ++ back) back ↔ StopsAt (next b (front ++ back)).2 back := by
      refine ⟨fun h => ?_, .next⟩
      generalize hbytes : b :: front ++ back = bytes at h
      cases h with
      | here =>
        have hlength := congrArg List.length hbytes
        rw [List.length_append, List.length_cons] at hlength
        omega
      | next h =>
        obtain ⟨rfl, rfl⟩ := List.cons.inj hbytes
        exact h
    rw [hstops, List.cons_append, decodeLenient_cons, decodeLenient_cons]
    cases next_append b front back with
    | within hwhole =>
      rw [hwhole]
      dsimp only
      rcases ih with ⟨hstop, htext⟩ | ⟨hstop, hlength⟩
      · exact .inl ⟨hstop, congrArg (List.cons _) htext⟩
      · refine .inr ⟨hstop, ?_⟩
        rw [List.length_cons, List.length_cons]
        omega
    | across eaten halone hsome htails hback =>
      have heaten : 0 < eaten.length := List.length_pos_iff.mpr hsome
      refine .inr ⟨fun hstop => ?_, ?_⟩
      · have hle := hstop.length_le
        have hlength := congrArg List.length hback
        rw [List.length_append] at hlength
        omega
      · have hparts := length_decodeLenient_tails htails (next b (front ++ back)).2
        rw [← hback] at hparts
        rw [halone, decodeLenient_nil, hparts, List.length_cons, List.length_singleton]
        omega

theorem decodeLenient_append (h : StopsAt (front ++ back) back) :
    decodeLenient (front ++ back) = decodeLenient front ++ decodeLenient back :=
  (decodeLenient_cut front back).elim And.right fun hnot => absurd h hnot.1

theorem length_decodeLenient_append_le (front back : List UInt8) :
    (decodeLenient (front ++ back)).length ≤
      (decodeLenient front).length + (decodeLenient back).length := by
  rcases decodeLenient_cut front back with ⟨-, htext⟩ | ⟨-, hlength⟩
  · rw [htext, List.length_append]
  · exact hlength.le

/-! ## Any number of parts -/

theorem length_decodeLenient_flatten_le (pieces : List (List UInt8)) :
    (decodeLenient pieces.flatten).length ≤ (pieces.map decodeLenient).flatten.length := by
  induction pieces with
  | nil => rw [List.flatten_nil, decodeLenient_nil, List.map_nil, List.flatten_nil]
  | cons piece pieces ih =>
    rw [List.flatten_cons, List.map_cons, List.flatten_cons, List.length_append]
    have hcut := length_decodeLenient_append_le piece pieces.flatten
    omega

/-- Bytes that are read in pieces give the text that they give at once exactly if a reader of all of
them stops at each of the cuts. -/
theorem flatten_decodeLenient_iff (pieces : List (List UInt8)) :
    (pieces.map decodeLenient).flatten = decodeLenient pieces.flatten ↔
      ∀ front back, pieces = front ++ back → StopsAt pieces.flatten back.flatten := by
  induction pieces with
  | nil =>
    rw [List.map_nil, List.flatten_nil, List.flatten_nil, decodeLenient_nil]
    refine iff_of_true rfl fun front back h => ?_
    obtain ⟨rfl, rfl⟩ := List.nil_eq_append_iff.mp h
    exact .here
  | cons piece pieces ih =>
    rw [List.map_cons, List.flatten_cons, List.flatten_cons]
    constructor
    · intro htext front back h
      have hstop : StopsAt (piece ++ pieces.flatten) pieces.flatten := by
        rcases decodeLenient_cut piece pieces.flatten with ⟨hstop, -⟩ | ⟨-, hless⟩
        · exact hstop
        · have hlength := congrArg List.length htext
          have hlater := length_decodeLenient_flatten_le pieces
          rw [List.length_append] at hlength
          omega
      rw [decodeLenient_append hstop] at htext
      cases front with
      | nil =>
        obtain rfl : back = piece :: pieces := h.symm
        exact .here
      | cons first front =>
        obtain ⟨rfl, hrest⟩ := List.cons.inj h
        exact hstop.trans (ih.mp (List.append_cancel_left htext) front back hrest)
    · intro hstops
      have hstop := hstops [piece] pieces rfl
      rw [decodeLenient_append hstop, ih.mpr]
      intro front back h
      refine hstop.of_length_le (hstops (piece :: front) back (congrArg _ h)) ?_
      rw [h, List.flatten_append, List.length_append]
      exact Nat.le_add_left _ _

end Cpm80.Utf8
