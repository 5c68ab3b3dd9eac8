import Cpm80.Proofs.Checked.Tokens

/-!
# Reading expressions by places

The readers of expressions call each other and go on at the place where the last one stopped. They
are given a depth to which they may call each other. If it is deep enough for the text, they find
what the readers find that hand on the rest of the text, and no cut of a token fails.
-/
namespace Cpm80.Basic.Checked

open Text Cpm80.Checked

variable {whole s t rest : List Char} {c : Char} {α : Type}

/-! ## The readers -/

/-- The first of some operators whose mark comes next. -/
def operator? (mark : α → Char) (operators : List α) (whole : List Char) (place : Nat) :
    Option (α × Nat) :=
  (operators.find? fun o => peek whole place = some (mark o)).map fun o =>
    (o, skip whole place + 1)

def sign? (whole : List Char) (place : Nat) : Option (Sign × Nat) :=
  operator? Sign.mark [.plus, .minus] whole place

def scaling? (whole : List Char) (place : Nat) : Option (Scaling × Nat) :=
  operator? Scaling.mark [.times, .dividedBy] whole place

/-- What a reader has found; the statement is bad if it has found nothing. -/
def demand (found : Option (Option α)) : Attempt Fault α := do
  match ← liftM found with
  | none => throw .badStatement
  | some a => pure a

/-! No reader calls others to more than a given depth, or goes on more often than that. -/

mutual

def read (v : Variables) (whole : List Char) :
    (depth : Nat) → Category → (place : Nat) → Attempt Fault (Value × Nat)
  | 0, _, _ => liftM (none : Option (Value × Nat))
  | depth + 1, .expression, place => do
    let (left, place) ← read v whole depth .sum place
    match ← liftM (relation? whole place) with
    | none => pure (left, place)
    | some (r, place) => do
      let (right, place) ← read v whole depth .sum place
      let x ← .of (r.compared left right)
      pure (x, place)
  | depth + 1, .sum, place => do
    let (x, place) ← read v whole depth .product place
    goOn v whole depth x .sum place
  | depth + 1, .product, place => do
    let (x, place) ← read v whole depth .signed place
    goOn v whole depth x .product place
  | depth + 1, .signed, place =>
    match sign? whole place with
    | some (o, place) => do
      let (x, place) ← read v whole depth .signed place
      let x ← .of (o.applied x)
      pure (x, place)
    | none => read v whole depth .power place
  | depth + 1, .power, place => do
    let (x, place) ← read v whole depth .operand place
    match eat? '^' whole place with
    | none => pure (x, place)
    | some place => do
      let (y, place) ← read v whole depth .signed place
      let x ← .of (calculated (· ^ ·) x y)
      pure (x, place)
  | depth + 1, .operand, place =>
    match eat? '(' whole place with
    | some place => do
      let (x, place) ← read v whole depth .expression place
      match eat? ')' whole place with
      | none => throw .badStatement
      | some place => pure (x, place)
    | none =>
      if (peek whole place).any (fun c => c = '"') then do
        let (text, place) ← demand (string? whole place)
        pure (.text text, place)
      else if (peek whole place).any isNumeralChar then do
        let (x, place) ← demand (number? whole place)
        pure (.number x, place)
      else do
        let (name, place) ← demand (identifier? whole place)
        pure (v.value name, place)

def goOn (v : Variables) (whole : List Char) :
    (depth : Nat) → Value → Category → (place : Nat) → Attempt Fault (Value × Nat)
  | 0, _, _, _ => liftM (none : Option (Value × Nat))
  | depth + 1, x, .sum, place =>
    match sign? whole place with
    | some (o, place) => do
      let (y, place) ← read v whole depth .product place
      let x ← .of (o.combined x y)
      goOn v whole depth x .sum place
    | none => pure (x, place)
  | depth + 1, x, .product, place =>
    match scaling? whole place with
    | some (o, place) => do
      let (y, place) ← read v whole depth .signed place
      let x ← .of (o.combined x y)
      goOn v whole depth x .product place
    | none => pure (x, place)
  | _ + 1, x, _, place => pure (x, place)

end

/-- What a reader by places finds is what a reader finds that gives back the rest, and the rest is
a part of what there was. -/
def Follows (whole s : List Char) (x : Attempt Fault (α × Nat))
    (y : Except Fault (α × List Char)) : Prop :=
  x = .of (y.map (located whole)) ∧ ∀ a rest, y = .ok (a, rest) → rest <:+ s

namespace Follows

variable {β : Type} {x : Attempt Fault (α × Nat)} {y : Except Fault (α × List Char)}
  {f : α × Nat → Attempt Fault (β × Nat)} {g : α × List Char → Except Fault (β × List Char)}

theorem error (e : Fault) : Follows whole s (throw e : Attempt Fault (α × Nat)) (.error e) :=
  ⟨rfl, nofun⟩

theorem ok (a : α) (h : rest <:+ s) :
    Follows whole s (pure (a, placeIn whole rest)) (.ok (a, rest)) := by
  refine ⟨rfl, ?_⟩
  rintro a rest ⟨⟩
  exact h

theorem bind (h : Follows whole s x y) (hf : ∀ a rest, rest <:+ s →
    Follows whole t (f (a, placeIn whole rest)) (g (a, rest))) :
    Follows whole t (x >>= f) (y >>= g) := by
  obtain ⟨rfl, hrest⟩ := h
  cases y with
  | error e => exact error e
  | ok found => exact hf found.1 found.2 (hrest _ _ rfl)

theorem mono (h : Follows whole s x y) (hst : s <:+ t) : Follows whole t x y :=
  ⟨h.1, fun a rest hy => (h.2 a rest hy).trans hst⟩

/-- Something is computed between two readers. -/
theorem compute (z : Except Fault β) {f : β → Attempt Fault (α × Nat)}
    {g : β → Except Fault (α × List Char)} (h : ∀ b, Follows whole s (f b) (g b)) :
    Follows whole s (.of z >>= f) (z >>= g) := by
  cases z with
  | error e => exact error e
  | ok b => exact h b

end Follows

/-- What has been found, or the fault that nothing has been found. -/
def found {n : Nat} (q : Option (Reading α n)) : Except Fault (α × List Char) :=
  (q.map Reading.parts).elim (.error .badStatement) .ok

theorem follows_demand {n : Nat} {q : Option (Reading α n)} (h : ∀ r, q = some r → r.rest <:+ s) :
    Follows whole s (demand (some ((q.map Reading.parts).map (located whole)))) (found q) := by
  cases q with
  | none => exact .error _
  | some r => exact .ok r.value (h r rfl)

theorem read_operand_of_ne (v : Variables) (h : Basic.peek s ≠ some '(') :
    Basic.read v s .operand =
      if (Basic.peek s).any fun c => c = '"' then do
        let (text, rest) ← found (Basic.string? s)
        .ok (.text text, rest)
      else if (Basic.peek s).any isNumeralChar then do
        let (x, rest) ← found (Basic.number? s)
        .ok (.number x, rest)
      else (do
        let (name, rest) ← found (Basic.identifier? s)
        .ok (v.value name, rest)) := by
  rw [Basic.read, operand, eat?_eq_none h]
  dsimp only
  cases hpeek : Basic.peek s with
  | none =>
    rw [identifier?_eq_none (by rw [hpeek]; rfl)]
    rfl
  | some c =>
    simp only [Option.any_some, decide_eq_true_eq]
    split
    · cases Basic.string? s <;> rfl
    · split
      · cases Basic.number? s <;> rfl
      · cases Basic.identifier? s <;> rfl

theorem operator?_placeIn {mark : α → Char} {operators : List α}
    (hmark : ∀ o, (mark o).toNat < 128) (hall : ∀ o, o ∈ operators) (hs : s <:+ whole) :
    (∃ o rest, skipSpaces s = mark o :: rest ∧
      operator? mark operators whole (placeIn whole s) = some (o, placeIn whole rest)) ∨
    ((∀ o, Basic.peek s ≠ some (mark o)) ∧
      operator? mark operators whole (placeIn whole s) = none) := by
  rw [operator?]
  cases hfind : operators.find? fun o => peek whole (placeIn whole s) = some (mark o) with
  | none =>
    refine .inr ⟨fun o hpeek => ?_, rfl⟩
    have hne := List.find?_eq_none.mp hfind o (hall o)
    rw [decide_eq_true_eq, peek_eq_some_iff (hmark o) hs] at hne
    exact hne hpeek
  | some o =>
    have hpeek := List.find?_some hfind
    rw [decide_eq_true_eq, peek_eq_some_iff (hmark o) hs] at hpeek
    obtain ⟨rest, hskip⟩ := List.head?_eq_some_iff.mp hpeek
    have hsuffix : mark o :: rest <:+ whole := hskip ▸ (suffix_skipSpaces s).trans hs
    refine .inl ⟨o, rest, hskip, ?_⟩
    rw [Option.map_some, skip_placeIn hs, hskip, placeIn_cons hsuffix (hmark o)]

theorem sign?_placeIn (hs : s <:+ whole) :
    (∃ o rest, skipSpaces s = Sign.mark o :: rest ∧
      sign? whole (placeIn whole s) = some (o, placeIn whole rest)) ∨
    ((∀ o : Sign, Basic.peek s ≠ some o.mark) ∧ sign? whole (placeIn whole s) = none) :=
  operator?_placeIn (by rintro (_ | _) <;> decide) (by rintro (_ | _) <;> decide) hs

theorem scaling?_placeIn (hs : s <:+ whole) :
    (∃ o rest, skipSpaces s = Scaling.mark o :: rest ∧
      scaling? whole (placeIn whole s) = some (o, placeIn whole rest)) ∨
    ((∀ o : Scaling, Basic.peek s ≠ some o.mark) ∧ scaling? whole (placeIn whole s) = none) :=
  operator?_placeIn (by rintro (_ | _) <;> decide) (by rintro (_ | _) <;> decide) hs

/-- A token has been taken off. -/
theorem taken_of_skipSpaces (h : skipSpaces s = c :: rest) :
    rest <:+ s ∧ rest.length < s.length := by
  have hlength := length_skipSpaces s
  rw [h, List.length_cons] at hlength
  exact ⟨suffix_of_skipSpaces h, hlength⟩

/-! ## One step of each reader -/

/-- The readers that are called for a text before the others, tightest first. -/
def rank : Category → Nat
  | .operand => 1
  | .power => 2
  | .signed => 3
  | .product => 5
  | .sum => 7
  | .expression => 8

/-- The readers that may call others to some depth follow the readers of texts that are short
enough. -/
structure Reads (v : Variables) (whole : List Char) (depth : Nat) : Prop where
  read : ∀ {s : List Char} {category : Category}, s <:+ whole →
    8 * s.length + rank category < depth →
    Follows whole s (Checked.read v whole depth category (placeIn whole s))
      (Basic.read v s category)
  goOn : ∀ {s : List Char} {category : Category} (x : Value), s <:+ whole →
    8 * s.length + rank category < depth + 1 →
    Follows whole s (Checked.goOn v whole depth x category (placeIn whole s))
      (Basic.goOn v x s category)

section

variable {v : Variables} {depth : Nat}

theorem Reads.expression (h : Reads v whole depth) (hs : s <:+ whole)
    (hdepth : 8 * s.length + 8 < depth + 1) :
    Follows whole s (Checked.read v whole (depth + 1) .expression (placeIn whole s))
      (Basic.read v s .expression) := by
  rw [Checked.read, read_expression]
  refine (h.read hs (by rw [rank]; omega)).bind fun left rest hrest => ?_
  dsimp only
  rw [relation?_placeIn (hrest.trans hs), Attempt.lift_eq, Attempt.of_ok_bind]
  cases hsign : Basic.relation? rest with
  | none => exact .ok left hrest
  | some sign =>
    have hsuffix := (suffix_of_relation? hsign).trans hrest
    have hlength := hrest.length_le
    have hshorter := sign.shorter
    refine (h.read (hsuffix.trans hs) (by rw [rank]; omega)).bind fun right after hafter => ?_
    exact .compute _ fun x => .ok x (hafter.trans hsuffix)

theorem Reads.sum (h : Reads v whole depth) (hs : s <:+ whole)
    (hdepth : 8 * s.length + 7 < depth + 1) :
    Follows whole s (Checked.read v whole (depth + 1) .sum (placeIn whole s))
      (Basic.read v s .sum) := by
  rw [Checked.read, read_sum]
  refine (h.read hs (by rw [rank]; omega)).bind fun x rest hrest => ?_
  have hlength := hrest.length_le
  exact (h.goOn x (hrest.trans hs) (by rw [rank]; omega)).mono hrest

theorem Reads.product (h : Reads v whole depth) (hs : s <:+ whole)
    (hdepth : 8 * s.length + 5 < depth + 1) :
    Follows whole s (Checked.read v whole (depth + 1) .product (placeIn whole s))
      (Basic.read v s .product) := by
  rw [Checked.read, read_product]
  refine (h.read hs (by rw [rank]; omega)).bind fun x rest hrest => ?_
  have hlength := hrest.length_le
  exact (h.goOn x (hrest.trans hs) (by rw [rank]; omega)).mono hrest

theorem Reads.signed (h : Reads v whole depth) (hs : s <:+ whole)
    (hdepth : 8 * s.length + 3 < depth + 1) :
    Follows whole s (Checked.read v whole (depth + 1) .signed (placeIn whole s))
      (Basic.read v s .signed) := by
  rw [Checked.read]
  rcases sign?_placeIn hs with ⟨o, rest, hskip, hsign⟩ | ⟨hne, hsign⟩
  · obtain ⟨hrest, hshorter⟩ := taken_of_skipSpaces hskip
    rw [hsign, read_signed o hskip]
    refine (h.read (hrest.trans hs) (by rw [rank]; omega)).bind fun x after hafter => ?_
    exact .compute _ fun x => .ok x (hafter.trans hrest)
  · rw [hsign, read_signed_of_ne hne]
    exact h.read hs (by rw [rank]; omega)

theorem Reads.power (h : Reads v whole depth) (hs : s <:+ whole)
    (hdepth : 8 * s.length + 2 < depth + 1) :
    Follows whole s (Checked.read v whole (depth + 1) .power (placeIn whole s))
      (Basic.read v s .power) := by
  rw [Checked.read, read_power]
  refine (h.read hs (by rw [rank]; omega)).bind fun x rest hrest => ?_
  dsimp only
  rw [eat?_placeIn (by decide) (hrest.trans hs)]
  cases hmark : Basic.eat? '^' rest with
  | none => exact .ok x hrest
  | some mark =>
    have hsuffix := (suffix_of_eat? hmark).trans hrest
    have hlength := hrest.length_le
    have hshorter := mark.shorter
    refine (h.read (hsuffix.trans hs) (by rw [rank]; omega)).bind fun y after hafter => ?_
    exact .compute _ fun x => .ok x (hafter.trans hsuffix)

theorem Reads.operand (h : Reads v whole depth) (hs : s <:+ whole)
    (hdepth : 8 * s.length + 1 < depth + 1) :
    Follows whole s (Checked.read v whole (depth + 1) .operand (placeIn whole s))
      (Basic.read v s .operand) := by
  rw [Checked.read, eat?_placeIn (by decide) hs]
  by_cases hpeek : Basic.peek s = some '('
  case pos =>
    obtain ⟨rest, hskip⟩ := List.head?_eq_some_iff.mp hpeek
    obtain ⟨hrest, hshorter⟩ := taken_of_skipSpaces hskip
    obtain ⟨hless, hopen⟩ := eat?_of_skipSpaces hskip
    rw [hopen, read_operand_enclosed hskip]
    refine (h.read (hrest.trans hs) (by rw [rank]; omega)).bind fun x inner hinner => ?_
    dsimp only
    rw [eat?_placeIn (by decide) ((hinner.trans hrest).trans hs)]
    cases hclose : Basic.eat? ')' inner with
    | none => exact .error _
    | some mark => exact .ok x ((suffix_of_eat? hclose).trans (hinner.trans hrest))
  case neg =>
    have hquote : AsciiOnly fun c => c = '"' := asciiOnly_eq (by decide)
    rw [eat?_eq_none hpeek, read_operand_of_ne v hpeek, string?_placeIn hs, number?_placeIn hs,
      identifier?_placeIn hs, any_peek hquote hs, any_peek asciiOnly_isNumeralChar hs]
    dsimp only [Option.map_none]
    split
    · exact (follows_demand fun _ => suffix_of_string?).bind fun text rest hrest => .ok _ hrest
    · split
      · exact (follows_demand fun _ => suffix_of_number?).bind fun x rest hrest => .ok _ hrest
      · exact (follows_demand fun _ => suffix_of_identifier?).bind
          fun name rest hrest => .ok _ hrest

theorem Reads.goOnSum (h : Reads v whole depth) (x : Value) (hs : s <:+ whole)
    (hdepth : 8 * s.length + 7 < depth + 2) :
    Follows whole s (Checked.goOn v whole (depth + 1) x .sum (placeIn whole s))
      (Basic.goOn v x s .sum) := by
  rw [Checked.goOn]
  rcases sign?_placeIn hs with ⟨o, rest, hskip, hsign⟩ | ⟨hne, hsign⟩
  · obtain ⟨hrest, hshorter⟩ := taken_of_skipSpaces hskip
    rw [hsign, goOn_sum o hskip]
    refine (h.read (hrest.trans hs) (by rw [rank]; omega)).bind fun y after hafter => ?_
    have hlength := hafter.length_le
    have hsuffix := hafter.trans hrest
    exact .compute _ fun x => (h.goOn x (hsuffix.trans hs) (by rw [rank]; omega)).mono hsuffix
  · rw [hsign, goOn_sum_of_ne hne]
    exact .ok x List.suffix_rfl

theorem Reads.goOnProduct (h : Reads v whole depth) (x : Value) (hs : s <:+ whole)
    (hdepth : 8 * s.length + 5 < depth + 2) :
    Follows whole s (Checked.goOn v whole (depth + 1) x .product (placeIn whole s))
      (Basic.goOn v x s .product) := by
  rw [Checked.goOn]
  rcases scaling?_placeIn hs with ⟨o, rest, hskip, hsign⟩ | ⟨hne, hsign⟩
  · obtain ⟨hrest, hshorter⟩ := taken_of_skipSpaces hskip
    rw [hsign, goOn_product o hskip]
    refine (h.read (hrest.trans hs) (by rw [rank]; omega)).bind fun y after hafter => ?_
    have hlength := hafter.length_le
    have hsuffix := hafter.trans hrest
    exact .compute _ fun x => (h.goOn x (hsuffix.trans hs) (by rw [rank]; omega)).mono hsuffix
  · rw [hsign, goOn_product_of_ne hne]
    exact .ok x List.suffix_rfl

theorem Reads.succ (h : Reads v whole depth) : Reads v whole (depth + 1) where
  read {s category} hs hdepth := by
    cases category with
    | expression => exact h.expression hs hdepth
    | sum => exact h.sum hs hdepth
    | product => exact h.product hs hdepth
    | signed => exact h.signed hs hdepth
    | power => exact h.power hs hdepth
    | operand => exact h.operand hs hdepth
  goOn {s category} x hs hdepth := by
    cases category with
    | sum => exact h.goOnSum x hs hdepth
    | product => exact h.goOnProduct x hs hdepth
    | expression | signed | power | operand => exact .ok x List.suffix_rfl

/-- However deep readers may call others, they read what is short enough for it. -/
theorem reads (v : Variables) (whole : List Char) (depth : Nat) : Reads v whole depth := by
  induction depth with
  | zero =>
    have hrank (category : Category) : 1 ≤ rank category := by cases category <;> decide
    refine ⟨fun {s category} _ hdepth => ?_, fun {s category} _ _ hdepth => ?_⟩
    · omega
    · have hleast := hrank category
      omega
  | succ depth ih => exact ih.succ

/-- Reads an expression, as deep as its length asks for. -/
def expression (v : Variables) (whole : List Char) (place : Nat) : Attempt Fault (Value × Nat) :=
  read v whole (8 * whole.length + 9) .expression place

theorem follows_expression (v : Variables) (hs : s <:+ whole) :
    Follows whole s (expression v whole (placeIn whole s))
      (outcome (Basic.expression v s)) := by
  have hlength := hs.length_le
  exact (reads v whole _).read hs (by rw [rank]; omega)

end

end Cpm80.Basic.Checked
