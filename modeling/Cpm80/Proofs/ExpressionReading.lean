import Cpm80.Proofs.TokenReading

/-!
# Reading expressions

An expression is computed while it is read, by one reader for each category of the grammar.
What a reader makes of a tree that has been written out is what the tree comes to, and it stops
behind the last token of the tree, unless a token follows that the tree could go on with. For a
sum or a product, to which more can be added, reading the tree leads to where the reader goes
on with the value of the tree as the total so far.
-/
namespace Cpm80.Basic

variable {v : Variables} {n : Nat} {s t rest blanks : List Char} {c : Char} {x : Value}

@[simp] theorem error_bind {α β : Type} (e : Fault) (f : α → Except Fault β) :
    (Except.error e >>= f) = .error e := rfl

@[simp] theorem ok_bind {α β : Type} (a : α) (f : α → Except Fault β) :
    (Except.ok a >>= f) = f a := rfl

theorem of_bind_eq_error {α β : Type} {e : Fault} {x : Except Fault α} {f : α → Except Fault β}
    (h : (x >>= f) = .error e) : x = .error e ∨ ∃ a, x = .ok a ∧ f a = .error e := by
  cases x with
  | error e' => exact .inl (congrArg Except.error (Except.error.inj h))
  | ok a => exact .inr ⟨a, rfl, h⟩

/-- What a reader of values found and what it left, or its fault. -/
def outcome (r : Except Fault (Reading Value n)) : Except Fault (Value × List Char) :=
  r.map Reading.parts

@[simp] theorem outcome_error (e : Fault) :
    outcome (.error e : Except Fault (Reading Value n)) = .error e := rfl

@[simp] theorem outcome_ok (q : Reading Value n) : outcome (.ok q) = .ok (q.value, q.rest) := rfl

/-- Reads a phrase of a category. -/
def read (v : Variables) (s : List Char) : Category → Except Fault (Value × List Char)
  | .expression => outcome (expression v s)
  | .sum => outcome (sum v s)
  | .product => outcome (product v s)
  | .signed => outcome (signed v s)
  | .power => outcome (power v s)
  | .operand => outcome (operand v s)

/-- Goes on with a phrase of which `x` has been computed. -/
def goOn (v : Variables) (x : Value) (s : List Char) :
    Category → Except Fault (Value × List Char)
  | .sum => outcome (sumRest v x s)
  | .product => outcome (productRest v x s)
  | _ => .ok (x, s)

/-! ## The readers

Each reader in terms of the others, without the proofs that they come to an end. -/

theorem holds_map_ofBool (r : Relation) (x y : Value) :
    (r.holds x y).map Value.ofBool = r.compared x y := by
  unfold Relation.holds Relation.compared
  cases x.order y with
  | error e => rfl
  | ok o =>
    cases o with
    | none => rfl
    | some o => cases r <;> cases o <;> rfl

theorem read_expression (v : Variables) (s : List Char) :
    read v s .expression = (do
      let (left, rest) ← read v s .sum
      match (relation? rest).map Reading.parts with
      | none => .ok (left, rest)
      | some (r, rest) => do
        let (right, rest) ← read v rest .sum
        let x ← r.compared left right
        .ok (x, rest)) := by
  simp only [read, ← holds_map_ofBool]
  rw [expression]
  cases sum v s with
  | error e => rfl
  | ok first =>
    obtain ⟨left, rest, hrest⟩ := first
    simp only [outcome_ok, ok_bind]
    cases relation? rest with
    | none => rfl
    | some sign =>
      obtain ⟨r, rest, hrest⟩ := sign
      simp only [Option.map_some, Reading.parts]
      cases sum v rest with
      | error e => rfl
      | ok second =>
        simp only [outcome_ok, ok_bind]
        cases r.holds left second.value <;> rfl

theorem read_sum (v : Variables) (s : List Char) :
    read v s .sum = (do
      let (x, rest) ← read v s .product
      goOn v x rest .sum) := by
  simp only [read, goOn]
  rw [sum]
  cases product v s with
  | error e => rfl
  | ok first =>
    simp only [outcome_ok, ok_bind]
    cases sumRest v first.value first.rest <;> rfl

theorem read_product (v : Variables) (s : List Char) :
    read v s .product = (do
      let (x, rest) ← read v s .signed
      goOn v x rest .product) := by
  simp only [read, goOn]
  rw [product]
  cases signed v s with
  | error e => rfl
  | ok first =>
    simp only [outcome_ok, ok_bind]
    cases productRest v first.value first.rest <;> rfl

theorem goOn_sum (o : Sign) (h : skipSpaces s = o.mark :: rest) :
    goOn v x s .sum = (do
      let (y, rest) ← read v rest .product
      let x ← o.combined x y
      goOn v x rest .sum) := by
  have hadd (y : Value) : x.add y = Sign.plus.combined x y := by
    cases x <;> cases y <;> rfl
  have hsub (y : Value) : x.sub y = Sign.minus.combined x y := by
    cases x <;> cases y <;> rfl
  have hpeek := peek_of_skipSpaces h
  obtain ⟨hshorter, hfound⟩ := eat?_of_skipSpaces h
  simp only [read, goOn]
  rw [sumRest]
  cases o
  case' plus => rw [show eat? '+' s = _ from hfound]
  case' minus =>
    have hplus : eat? '+' s = none := eat?_eq_none_of_peek hpeek (by decide)
    rw [hplus, show eat? '-' s = _ from hfound]
  -- from here on both signs are read in the same way
  all_goals
    dsimp only
    cases product v rest with
    | error e => rfl
    | ok second =>
      simp only [outcome_ok, ok_bind, hadd, hsub]
      split
      case h_1 e herror => rw [herror, error_bind, outcome_error]
      case h_2 total htotal =>
        rw [htotal, ok_bind]
        cases sumRest v total second.rest <;> rfl

theorem goOn_product (o : Scaling) (h : skipSpaces s = o.mark :: rest) :
    goOn v x s .product = (do
      let (y, rest) ← read v rest .signed
      let x ← o.combined x y
      goOn v x rest .product) := by
  have hmul (y : Value) : x.mul y = Scaling.times.combined x y := by
    cases x <;> cases y <;> rfl
  have hdiv (y : Value) : x.div y = Scaling.dividedBy.combined x y := by
    cases x <;> cases y <;> rfl
  have hpeek := peek_of_skipSpaces h
  obtain ⟨hshorter, hfound⟩ := eat?_of_skipSpaces h
  simp only [read, goOn]
  rw [productRest]
  cases o
  case' times => rw [show eat? '*' s = _ from hfound]
  case' dividedBy =>
    have htimes : eat? '*' s = none := eat?_eq_none_of_peek hpeek (by decide)
    rw [htimes, show eat? '/' s = _ from hfound]
  -- from here on both signs are read in the same way
  all_goals
    dsimp only
    cases signed v rest with
    | error e => rfl
    | ok second =>
      simp only [outcome_ok, ok_bind, hmul, hdiv]
      split
      case h_1 e herror => rw [herror, error_bind, outcome_error]
      case h_2 total htotal =>
        rw [htotal, ok_bind]
        cases productRest v total second.rest <;> rfl

theorem goOn_sum_of_ne (h : ∀ o : Sign, peek s ≠ some o.mark) : goOn v x s .sum = .ok (x, s) := by
  have hplus : eat? '+' s = none := eat?_eq_none (h .plus)
  have hminus : eat? '-' s = none := eat?_eq_none (h .minus)
  rw [goOn, sumRest, hplus, hminus, outcome_ok]

theorem goOn_product_of_ne (h : ∀ o : Scaling, peek s ≠ some o.mark) :
    goOn v x s .product = .ok (x, s) := by
  have htimes : eat? '*' s = none := eat?_eq_none (h .times)
  have hdivided : eat? '/' s = none := eat?_eq_none (h .dividedBy)
  rw [goOn, productRest, htimes, hdivided, outcome_ok]

theorem read_signed (o : Sign) (h : skipSpaces s = o.mark :: rest) :
    read v s .signed = (do
      let (x, rest) ← read v rest .signed
      let x ← o.applied x
      .ok (x, rest)) := by
  have hnegate (x : Value) : x.negate = Sign.minus.applied x := by cases x <;> rfl
  have hplus (x : Value) : x.plus = Sign.plus.applied x := by cases x <;> rfl
  have hpeek := peek_of_skipSpaces h
  obtain ⟨hshorter, hfound⟩ := eat?_of_skipSpaces h
  simp only [read]
  rw [signed]
  cases o
  case' plus =>
    have hminus : eat? '-' s = none := eat?_eq_none_of_peek hpeek (by decide)
    rw [hminus, show eat? '+' s = _ from hfound]
  case' minus => rw [show eat? '-' s = _ from hfound]
  all_goals
    dsimp only
    cases signed v rest with
    | error e => rfl
    | ok first =>
      simp only [outcome_ok, ok_bind, hnegate, hplus]
      split
      case h_1 e herror => rw [herror, error_bind, outcome_error]
      case h_2 y hy => rw [hy, ok_bind, outcome_ok]

theorem read_signed_of_ne (h : ∀ o : Sign, peek s ≠ some o.mark) :
    read v s .signed = read v s .power := by
  have hplus : eat? '+' s = none := eat?_eq_none (h .plus)
  have hminus : eat? '-' s = none := eat?_eq_none (h .minus)
  simp only [read]
  rw [signed, hminus, hplus]

theorem read_power (v : Variables) (s : List Char) :
    read v s .power = (do
      let (x, rest) ← read v s .operand
      match (eat? '^' rest).map Reading.parts with
      | none => .ok (x, rest)
      | some (_, rest) => do
        let (y, rest) ← read v rest .signed
        let x ← calculated (· ^ ·) x y
        .ok (x, rest)) := by
  have hpower (x y : Value) : x.power y = calculated (· ^ ·) x y := by
    cases x <;> cases y <;> rfl
  simp only [read]
  rw [power]
  cases operand v s with
  | error e => rfl
  | ok first =>
    obtain ⟨x, rest, hrest⟩ := first
    simp only [outcome_ok, ok_bind]
    cases eat? '^' rest with
    | none => rfl
    | some mark =>
      simp only [Option.map_some, Reading.parts]
      cases signed v mark.rest with
      | error e => rfl
      | ok second =>
        simp only [outcome_ok, ok_bind, hpower]
        cases calculated (· ^ ·) x second.value <;> rfl

theorem read_operand_enclosed (h : skipSpaces s = '(' :: rest) :
    read v s .operand = (do
      let (x, rest) ← read v rest .expression
      match (eat? ')' rest).map Reading.parts with
      | none => .error .badStatement
      | some (_, rest) => .ok (x, rest)) := by
  obtain ⟨hshorter, hfound⟩ := eat?_of_skipSpaces h
  simp only [read]
  rw [operand, hfound]
  dsimp only
  cases expression v rest with
  | error e => rfl
  | ok inner =>
    simp only [outcome_ok, ok_bind]
    cases eat? ')' inner.rest <;> rfl

theorem read_operand_text {text : List Char} (hpeek : peek s = some '"')
    (h : (string? s).map Reading.parts = some (text, rest)) :
    read v s .operand = .ok (.text text, rest) := by
  have hopen : eat? '(' s = none := eat?_eq_none_of_peek hpeek (by decide)
  obtain ⟨hshorter, hfound⟩ := exists_of_parts h
  simp only [read]
  rw [operand, hopen, hpeek, hfound]
  rfl

theorem read_operand_number {c : Char} {a : Float} (hpeek : peek s = some c)
    (hc : isNumeralChar c = true) (h : (number? s).map Reading.parts = some (a, rest)) :
    read v s .operand = .ok (.number a, rest) := by
  have hparen : c ≠ '(' := by
    rintro rfl
    cases hc
  have hquote : c ≠ '"' := by
    rintro rfl
    cases hc
  have hopen : eat? '(' s = none := eat?_eq_none_of_peek hpeek hparen
  obtain ⟨hshorter, hfound⟩ := exists_of_parts h
  simp only [read]
  rw [operand, hopen, hpeek]
  simp only [if_neg hquote, if_pos hc, hfound, outcome_ok]

theorem read_operand_named {c : Char} {name : String} (hpeek : peek s = some c)
    (hc : c.isAlpha = true) (h : (identifier? s).map Reading.parts = some (name, rest)) :
    read v s .operand = .ok (v.value name, rest) := by
  have hparen : c ≠ '(' := by
    rintro rfl
    cases hc
  have hquote : c ≠ '"' := by
    rintro rfl
    cases hc
  have hnumeral : ¬isNumeralChar c = true := by
    rw [isNumeralChar_of_isAlpha hc]
    exact Bool.false_ne_true
  have hopen : eat? '(' s = none := eat?_eq_none_of_peek hpeek hparen
  obtain ⟨hshorter, hfound⟩ := exists_of_parts h
  simp only [read]
  rw [operand, hopen, hpeek]
  simp only [if_neg hquote, if_neg hnumeral, hfound, outcome_ok]

/-! ## Ends of phrases -/

/-- The tokens that a phrase of a category can be gone on with. -/
def Category.marks : Category → List Char
  | .expression => ['^', '*', '/', '+', '-', '<', '>', '=']
  | .sum => ['^', '*', '/', '+', '-']
  | .product => ['^', '*', '/']
  | .signed | .power => ['^']
  | .operand => []

/-- What follows a phrase of the category does not belong to it. -/
def Category.Ends (c : Category) (rest : List Char) : Prop :=
  Apart rest ∧ ∀ d ∈ peek rest, d ∉ c.marks

/-- The category of what a phrase that goes on starts with. -/
def Category.front : Category → Category
  | .sum => .product
  | .product => .signed
  | c => c

theorem Category.Ends.mono {c c' : Category} (h : c.Ends rest) (hmarks : c'.marks ⊆ c.marks) :
    c'.Ends rest :=
  ⟨h.1, fun d hd hmem => h.2 d hd (hmarks hmem)⟩

theorem Category.ends_of_blank {c : Category} (h : ∀ d ∈ blanks, isSpace d) : c.Ends blanks := by
  refine ⟨apart_of_blank h, fun d hd => ?_⟩
  rw [peek, skipSpaces_of_blank h] at hd
  cases hd

theorem Category.ends_token {c : Category} {d : Char} (h : ∀ b ∈ blanks, isSpace b)
    (hd : d ∈ separators) (hspace : isSpace d = false) (hmark : d ∉ c.marks) (s : List Char) :
    c.Ends (blanks ++ d :: s) := by
  refine ⟨apart_token h hd s, fun b hb => ?_⟩
  rw [peek_of_skipSpaces (skipSpaces_token h hspace s), Option.mem_some_iff] at hb
  exact hb ▸ hmark

/-- A phrase that is followed by something else is not gone on with. -/
theorem goOn_of_ends {c : Category} (h : c.Ends rest) (v : Variables) (x : Value) :
    goOn v x rest c = .ok (x, rest) := by
  cases c with
  | sum =>
    apply goOn_sum_of_ne
    intro o ho
    exact h.2 _ ho (by cases o <;> decide)
  | product =>
    apply goOn_product_of_ne
    intro o ho
    exact h.2 _ ho (by cases o <;> decide)
  | expression | signed | power | operand => rfl

theorem bind_goOn_of_ends {c : Category} (h : c.Ends rest) (v : Variables)
    (r : Except Fault Value) : (do goOn v (← r) rest c) = (do .ok (← r, rest)) := by
  cases r with
  | error e => rfl
  | ok x => exact goOn_of_ends h v x

/-! ## Starts of phrases -/

/-- What an operand can start with. -/
def isOpening (d : Char) : Bool :=
  d = '(' || d = '"' || isNumeralChar d || d.isAlpha

theorem any_isOpening_separators : separators.any isOpening = false := by
  decide

theorem isSpace_of_isOpening {d : Char} (h : isOpening d = true) : isSpace d = false :=
  isSpace_eq_false any_isOpening_separators h

theorem ne_mark_of_isOpening {d : Char} (h : isOpening d = true) (o : Sign) : d ≠ o.mark := by
  rintro rfl
  have hmark : o.mark ∈ separators := by cases o <;> decide
  rw [eq_false_of_mem_separators any_isOpening_separators hmark] at h
  cases h

namespace Tree

/-- An operand and a power start with what an operand can start with; before any other phrase
there may be signs. -/
theorem exists_first {c : Category} (t : Tree c) :
    ∃ d token more, t.tokens = (d :: token) :: more ∧
      (isOpening d = true ∨ (c ≠ .operand ∧ c ≠ .power ∧ ∃ o : Sign, d = o.mark)) := by
  induction t with
  | plain x ih | term x ih | factor x ih | unsigned x ih =>
    obtain ⟨d, token, more, htokens, hd⟩ := ih
    refine ⟨d, token, more, htokens, hd.imp id fun hsign => ⟨by simp, by simp, hsign.2.2⟩⟩
  | base x ih =>
    obtain ⟨d, token, more, htokens, hd⟩ := ih
    exact ⟨d, token, more, htokens, hd.imp id fun hsign => absurd rfl hsign.1⟩
  | related x _ _ ih | sum x _ _ ih | product x _ _ ih =>
    obtain ⟨d, token, more, htokens, hd⟩ := ih
    refine ⟨d, token, _, by rw [tokens, htokens, List.cons_append], ?_⟩
    exact hd.imp id fun hsign => ⟨by simp, by simp, hsign.2.2⟩
  | power x _ ih =>
    obtain ⟨d, token, more, htokens, hd⟩ := ih
    refine ⟨d, token, _, by rw [tokens, htokens, List.cons_append], ?_⟩
    exact hd.imp id fun hsign => absurd rfl hsign.1
  | signed o x => exact ⟨o.mark, [], _, rfl, .inr ⟨by simp, by simp, o, rfl⟩⟩
  | number n =>
    obtain ⟨d, more, hmantissa⟩ := List.exists_cons_of_ne_nil n.mantissa_ne
    have hd := n.isNumeralChar_mantissa d (hmantissa ▸ List.mem_cons_self)
    refine ⟨d, more ++ n.exponent, [], ?_, .inl ?_⟩
    · rw [tokens, Literal.token, hmantissa, List.cons_append]
    · rw [isOpening, hd, Bool.or_true, Bool.true_or]
  | text s h => exact ⟨'"', s ++ ['"'], [], rfl, .inl rfl⟩
  | named n =>
    refine ⟨n.first, n.more ++ n.mark, [], rfl, .inl ?_⟩
    rw [isOpening, n.isAlpha_first, Bool.or_true]
  | enclosed x => exact ⟨'(', [], _, rfl, .inl rfl⟩

/-- Nothing in front of a phrase is part of the sign of a relation. -/
theorem head?_ne {c : Category} (t : Tree c) (hs : Spaced t.tokens s) (rest : List Char) :
    ∀ d ∈ (s ++ rest).head?, d ≠ '=' ∧ d ≠ '>' := by
  obtain ⟨first, token, more, htokens, hfirst⟩ := t.exists_first
  rw [htokens] at hs
  obtain ⟨blanks, after, hblanks, -, rfl⟩ := hs.of_cons
  have hclear : first ≠ '=' ∧ first ≠ '>' := by
    rcases hfirst with hopening | ⟨-, -, o, rfl⟩
    · constructor <;> rintro rfl <;> cases hopening
    · cases o <;> decide
  intro d hd
  cases blanks with
  | nil => exact Option.some.inj hd ▸ hclear
  | cons b blanks =>
    have hspace : isSpace d = true := Option.some.inj hd ▸ hblanks b List.mem_cons_self
    constructor <;> rintro rfl <;> cases hspace

theorem peek_eq {c : Category} (t : Tree c) (hs : Spaced t.tokens s) (rest : List Char) :
    ∃ d, peek (s ++ rest) = some d ∧
      (isOpening d = true ∨ (c ≠ .operand ∧ c ≠ .power ∧ ∃ o : Sign, d = o.mark)) := by
  obtain ⟨d, token, more, htokens, hd⟩ := t.exists_first
  rw [htokens] at hs
  obtain ⟨blanks, after, hblanks, -, rfl⟩ := hs.of_cons
  have hspace : isSpace d = false := by
    rcases hd with hopening | ⟨-, -, o, rfl⟩
    · exact isSpace_of_isOpening hopening
    · cases o <;> decide
  refine ⟨d, ?_, hd⟩
  rw [List.append_assoc, List.cons_append, List.cons_append]
  exact peek_of_skipSpaces (skipSpaces_token hblanks hspace _)

/-- What a reader makes of a tree that has been written out: it goes on with the value of the
tree where the tree ends. -/
theorem read_append {c : Category} (t : Tree c) (hs : Spaced t.tokens s)
    (hends : c.front.Ends rest) :
    read v (s ++ rest) c = (do goOn v (← t.value v) rest c) := by
  induction t generalizing s rest with
  | plain x ih =>
    have hsum := ih hs (hends.mono (by decide))
    rw [bind_goOn_of_ends (hends.mono (by decide))] at hsum
    have hrelation : relation? rest = none := by
      have hmarks : ['<', '>', '='] ⊆ Category.expression.front.marks := by decide
      exact relation?_eq_none fun d hd hmem => hends.2 d hd (hmarks hmem)
    simp only [read_expression, hsum, value, bind_assoc, ok_bind, hrelation, Option.map_none, goOn]
  | related x r y ihx ihy =>
    obtain ⟨first, second, hfirst, hsecond, rfl⟩ := hs.of_append
    obtain ⟨blanks, third, hblanks, hthird, rfl⟩ := hsecond.of_cons
    have htext : first ++ (blanks ++ (r.token ++ third)) ++ rest =
        first ++ (blanks ++ (r.token ++ (third ++ rest))) := by simp only [List.append_assoc]
    have hnext : Category.sum.Ends (blanks ++ (r.token ++ (third ++ rest))) := by
      cases r <;> exact Category.ends_token hblanks (by decide) (by decide) (by decide) _
    have hleft := ihx hfirst (hnext.mono (by decide))
    rw [bind_goOn_of_ends hnext] at hleft
    have hright := ihy hthird (hends.mono (by decide))
    rw [bind_goOn_of_ends (hends.mono (by decide))] at hright
    have hrelation := relation?_token r hblanks (y.head?_ne hthird rest)
    simp only [htext, read_expression, hleft, value, bind_assoc, ok_bind, hrelation, hright, goOn]
  | term x ih =>
    have hproduct := ih hs (hends.mono (by decide))
    rw [bind_goOn_of_ends (c := .product) hends] at hproduct
    simp only [read_sum, hproduct, value, bind_assoc, ok_bind]
  | sum x o y ihx ihy =>
    obtain ⟨first, second, hfirst, hsecond, rfl⟩ := hs.of_append
    obtain ⟨blanks, third, hblanks, hthird, rfl⟩ := hsecond.of_cons
    have htext : first ++ (blanks ++ ([o.mark] ++ third)) ++ rest =
        first ++ (blanks ++ o.mark :: (third ++ rest)) := by simp
    have hmark : o.mark ∈ separators ∧ isSpace o.mark = false ∧
        o.mark ∉ Category.product.marks := by cases o <;> decide
    have hleft := ihx hfirst
      (Category.ends_token hblanks hmark.1 hmark.2.1 hmark.2.2 (third ++ rest))
    have hright := ihy hthird (hends.mono (by decide))
    rw [bind_goOn_of_ends (c := .product) hends] at hright
    have hgoOn (a : Value) := goOn_sum (v := v) (x := a) o
      (skipSpaces_token hblanks hmark.2.1 (third ++ rest))
    simp only [htext, hleft, value, bind_assoc, hgoOn, hright, ok_bind]
  | factor x ih =>
    have hsigned := ih hs hends
    rw [bind_goOn_of_ends (c := .signed) hends] at hsigned
    simp only [read_product, hsigned, value, bind_assoc, ok_bind]
  | product x o y ihx ihy =>
    obtain ⟨first, second, hfirst, hsecond, rfl⟩ := hs.of_append
    obtain ⟨blanks, third, hblanks, hthird, rfl⟩ := hsecond.of_cons
    have htext : first ++ (blanks ++ ([o.mark] ++ third)) ++ rest =
        first ++ (blanks ++ o.mark :: (third ++ rest)) := by simp
    have hmark : o.mark ∈ separators ∧ isSpace o.mark = false ∧
        o.mark ∉ Category.signed.marks := by cases o <;> decide
    have hleft := ihx hfirst
      (Category.ends_token hblanks hmark.1 hmark.2.1 hmark.2.2 (third ++ rest))
    have hright := ihy hthird hends
    rw [bind_goOn_of_ends (c := .signed) hends] at hright
    have hgoOn (a : Value) := goOn_product (v := v) (x := a) o
      (skipSpaces_token hblanks hmark.2.1 (third ++ rest))
    simp only [htext, hleft, value, bind_assoc, hgoOn, hright, ok_bind]
  | unsigned x ih =>
    have hpower := ih hs hends
    obtain ⟨d, hpeek, hd⟩ := x.peek_eq hs rest
    have hopening : isOpening d = true := hd.resolve_right fun hsign => hsign.2.1 rfl
    have hunsigned : read v (s ++ rest) .signed = read v (s ++ rest) .power :=
      read_signed_of_ne fun o ho =>
        ne_mark_of_isOpening hopening o (Option.some.inj (hpeek.symm.trans ho))
    rw [hunsigned, hpower]
    rfl
  | signed o x ih =>
    obtain ⟨blanks, after, hblanks, hafter, rfl⟩ := hs.of_cons
    have htext : blanks ++ ([o.mark] ++ after) ++ rest = blanks ++ o.mark :: (after ++ rest) := by
      simp
    have hspace : isSpace o.mark = false := by cases o <;> decide
    have hoperand := ih hafter hends
    rw [bind_goOn_of_ends (c := .signed) hends] at hoperand
    have hread := read_signed (v := v) o (skipSpaces_token hblanks hspace (after ++ rest))
    simp only [htext, hread, hoperand, value, bind_assoc, ok_bind, goOn]
  | base x ih =>
    have hoperand := ih hs (hends.mono (by decide))
    have hmark : eat? '^' rest = none := by
      apply eat?_eq_none
      intro hpeek
      exact hends.2 _ hpeek (by decide)
    simp only [read_power, hoperand, value, bind_assoc, ok_bind, hmark, goOn, Option.map_none]
  | power x y ihx ihy =>
    obtain ⟨first, second, hfirst, hsecond, rfl⟩ := hs.of_append
    obtain ⟨blanks, third, hblanks, hthird, rfl⟩ := hsecond.of_cons
    have htext : first ++ (blanks ++ (['^'] ++ third)) ++ rest =
        first ++ (blanks ++ '^' :: (third ++ rest)) := by simp
    have hnext : Category.operand.Ends (blanks ++ '^' :: (third ++ rest)) :=
      Category.ends_token hblanks (by decide) (by decide) (by decide) _
    have hleft := ihx hfirst hnext
    have hright := ihy hthird hends
    rw [bind_goOn_of_ends (c := .signed) hends] at hright
    obtain ⟨hshorter, hmark⟩ :=
      eat?_of_skipSpaces (skipSpaces_token hblanks (c := '^') (by decide) (third ++ rest))
    simp only [htext, read_power, hleft, value, bind_assoc, ok_bind, goOn, hmark,
      Option.map_some, Reading.parts, hright]
  | number n =>
    obtain ⟨first, more, hmantissa⟩ := List.exists_cons_of_ne_nil n.mantissa_ne
    have hchar := n.isNumeralChar_mantissa first (hmantissa ▸ List.mem_cons_self)
    obtain ⟨blanks, after, hblanks, hnil, rfl⟩ := hs.of_cons
    cases hnil
    have hpeek : peek (blanks ++ (n.token ++ rest)) = some first := by
      rw [Literal.token, hmantissa]
      exact peek_of_skipSpaces (skipSpaces_token hblanks (isSpace_of_isNumeralChar hchar) _)
    rw [List.append_nil, List.append_assoc,
      read_operand_number hpeek hchar (number?_token n hblanks hends.1)]
    rfl
  | text s h =>
    obtain ⟨blanks, after, hblanks, hnil, rfl⟩ := hs.of_cons
    cases hnil
    have hpeek : peek (blanks ++ (('"' :: (s ++ ['"'])) ++ rest)) = some '"' :=
      peek_of_skipSpaces (skipSpaces_token hblanks (by decide) _)
    rw [List.append_nil, List.append_assoc,
      read_operand_text hpeek (string?_token hblanks h rest)]
    rfl
  | named n =>
    obtain ⟨blanks, after, hblanks, hnil, rfl⟩ := hs.of_cons
    cases hnil
    have hpeek : peek (blanks ++ (n.token ++ rest)) = some n.first :=
      peek_of_skipSpaces (skipSpaces_token hblanks (isSpace_of_isAlpha n.isAlpha_first) _)
    rw [List.append_nil, List.append_assoc,
      read_operand_named hpeek n.isAlpha_first (identifier?_token n hblanks hends.1)]
    rfl
  | enclosed x ih =>
    obtain ⟨blanks, after, hblanks, hafter, rfl⟩ := hs.of_cons
    obtain ⟨inner, last, hinner, hlast, rfl⟩ := hafter.of_append
    obtain ⟨blanks', after, hblanks', hnil, rfl⟩ := hlast.of_cons
    cases hnil
    have htext : blanks ++ (['('] ++ (inner ++ (blanks' ++ ([')'] ++ [])))) ++ rest =
        blanks ++ '(' :: (inner ++ (blanks' ++ ')' :: rest)) := by simp
    have hinside := ih hinner
      (Category.ends_token hblanks' (d := ')') (by decide) (by decide) (by decide) rest)
    obtain ⟨hshorter, hclose⟩ :=
      eat?_of_skipSpaces (skipSpaces_token hblanks' (c := ')') (by decide) rest)
    have hread := read_operand_enclosed (v := v) (skipSpaces_token hblanks (by decide)
      (inner ++ (blanks' ++ ')' :: rest)))
    simp only [htext, hread, hinside, value, bind_assoc, ok_bind, goOn, hclose,
      Option.map_some, Reading.parts]

end Tree

/-! ## Faults -/

section Faults

variable {e : Fault} {y : Value}

theorem calculated_eq_error {f : Float → Float → Float} (h : calculated f x y = .error e) :
    e = .typeMismatch := by
  cases x <;> cases y <;> cases h <;> rfl

theorem adjusted_eq_error {f : Float → Float} (h : adjusted f x = .error e) :
    e = .typeMismatch := by
  cases x with
  | number => cases h
  | text => exact (Except.error.inj h).symm

theorem Sign.applied_eq_error {o : Sign} (h : o.applied x = .error e) : e = .typeMismatch := by
  cases o <;> exact adjusted_eq_error h

theorem Sign.combined_eq_error {o : Sign} (h : o.combined x y = .error e) :
    e = .typeMismatch := by
  cases o with
  | plus => cases x <;> cases y <;> cases h <;> rfl
  | minus => exact calculated_eq_error h

/-- Only a division can fail for another reason than the kinds of its operands. -/
theorem Scaling.combined_eq_error {o : Scaling} (h : o.combined x y = .error e) :
    e = .typeMismatch ∨ e = .divisionByZero := by
  cases o with
  | times => exact .inl (calculated_eq_error h)
  | dividedBy =>
    cases y with
    | text => exact .inl (Except.error.inj h).symm
    | number b =>
      rw [combined] at h
      split at h
      · exact .inr (Except.error.inj h).symm
      · exact .inl (calculated_eq_error h)

theorem Relation.compared_eq_error {r : Relation} (h : r.compared x y = .error e) :
    e = .typeMismatch := by
  cases x <;> cases y <;> cases h <;> rfl

/-- An operation on two results fails where one of them has failed or in its own way. -/
theorem of_operation_eq_error {p : Fault → Prop} {a b : Except Fault Value}
    {f : Value → Value → Except Fault Value} (ha : ∀ e, a = .error e → p e)
    (hb : ∀ e, b = .error e → p e) (hf : ∀ x y e, f x y = .error e → p e)
    (h : (do f (← a) (← b)) = .error e) : p e := by
  rcases of_bind_eq_error h with h | ⟨x, -, h⟩
  · exact ha e h
  rcases of_bind_eq_error h with h | ⟨y, -, h⟩
  · exact hb e h
  · exact hf x y e h

/-- The only faults of a tree are those of its operations. -/
theorem Tree.eq_of_value_eq_error {c : Category} (t : Tree c) :
    ∀ e, t.value v = .error e → e = .typeMismatch ∨ e = .divisionByZero := by
  induction t with
  | plain x ih | term x ih | factor x ih | unsigned x ih | base x ih | enclosed x ih => exact ih
  | number | text | named => nofun
  | signed o x ih =>
    intro e h
    rcases of_bind_eq_error h with hx | ⟨a, -, ha⟩
    · exact ih e hx
    · exact .inl (Sign.applied_eq_error ha)
  | related x r y ihx ihy =>
    intro e
    exact of_operation_eq_error ihx ihy fun _ _ _ h => .inl (Relation.compared_eq_error h)
  | sum x o y ihx ihy =>
    intro e
    exact of_operation_eq_error ihx ihy fun _ _ _ h => .inl (Sign.combined_eq_error h)
  | product x o y ihx ihy =>
    intro e
    exact of_operation_eq_error ihx ihy fun _ _ _ h => Scaling.combined_eq_error h
  | power x y ihx ihy =>
    intro e
    exact of_operation_eq_error ihx ihy fun _ _ _ h => .inl (calculated_eq_error h)

end Faults

/-- A tree that has been written out is read to its end, and what it comes to is the value of
the tree: it fails where an operation of the tree meets operands of the wrong kind or a division
by zero, and for no other reason. -/
theorem expression_of_tree (v : Variables) (t : Tree .expression) (hs : Spaced t.tokens s)
    (hblanks : ∀ c ∈ blanks, isSpace c) :
    (∀ x, t.value v = .ok x →
      ∃ r, expression v (s ++ blanks) = .ok r ∧ r.value = x ∧ r.rest = blanks) ∧
    (∀ e, expression v (s ++ blanks) = .error e ↔ t.value v = .error e) ∧
    (∀ e, t.value v = .error e → e = .typeMismatch ∨ e = .divisionByZero) := by
  have hends : Category.expression.Ends blanks := Category.ends_of_blank hblanks
  have hread := t.read_append (v := v) hs hends
  rw [bind_goOn_of_ends hends, read] at hread
  refine ⟨?_, ?_, t.eq_of_value_eq_error⟩
  · intro x hx
    rw [hx, ok_bind] at hread
    cases hr : expression v (s ++ blanks) with
    | error e => cases (hr ▸ hread)
    | ok r =>
      rw [hr] at hread
      obtain ⟨hvalue, hrest⟩ := Prod.mk.inj (Except.ok.inj hread)
      exact ⟨r, rfl, hvalue, hrest⟩
  · intro e
    cases hr : expression v (s ++ blanks) with
    | error f =>
      cases hx : t.value v with
      | error g =>
        rw [hr, hx] at hread
        rw [Except.error.inj hread, Except.error.injEq, Except.error.injEq]
      | ok x =>
        rw [hr, hx] at hread
        cases hread
    | ok r =>
      cases hx : t.value v with
      | error g =>
        rw [hr, hx] at hread
        cases hread
      | ok x => exact iff_of_false nofun nofun

/-- A number of one digit. -/
def Literal.digit (c : Char) (h : c.isDigit) : Literal where
  mantissa := [c]
  exponent := []
  value := Decimal.toFloat ⟨c.toNat - 48, 0⟩
  mantissa_ne := by simp
  isNumeralChar_mantissa := by simpa [isNumeralChar] using Or.inl h
  isExponent := .none
  converted := by simp [Decimal.unsigned?, h, Decimal.natOfDigits, Decimal.exponent?]

/-- A sign stands outside the power behind it and inside the power in front of it, and both
belong to the factor. -/
theorem expression_of_tree_powerInProduct :
    ∃ r, expression (SortedMap.empty.insert "N" (.number 0.5)) "-2 ^-n*3 ".toList = .ok r ∧
      r.value = .number (-(Decimal.toFloat ⟨2, 0⟩ ^ (-0.5 : Float)) * Decimal.toFloat ⟨3, 0⟩) ∧
      r.rest = [' '] := by
  let two : Tree .operand := .number (Literal.digit '2' rfl)
  let three : Tree .operand := .number (Literal.digit '3' rfl)
  let name : Tree .operand := .named ⟨'n', [], false, rfl, by simp⟩
  let power : Tree .power := .power two (.signed .minus (.unsigned (.base name)))
  let tree : Tree .expression := .plain (.term (.product
    (.factor (.signed .minus (.unsigned power))) .times (.unsigned (.base three))))
  have hblank : ∀ c ∈ [' '], isSpace c := List.forall_mem_singleton.mpr rfl
  have hspaced : Spaced tree.tokens "-2 ^-n*3".toList :=
    .next (.next (.cons hblank (.next (.next (.next (.next .nil))))))
  have hname : Variables.value (SortedMap.empty.insert "N" (.number 0.5)) "N" =
      .number 0.5 := by
    rw [Variables.value, SortedMap.get?_insert, if_pos rfl, Option.getD_some]
  have hvalue : tree.value (SortedMap.empty.insert "N" (.number 0.5)) =
      .ok (.number (-(Decimal.toFloat ⟨2, 0⟩ ^ (-0.5 : Float)) * Decimal.toFloat ⟨3, 0⟩)) := by
    have hn : (⟨'n', [], false, rfl, by simp⟩ : Identifier).name = "N" := by decide
    have htwo : '2'.toNat - 48 = 2 := by decide
    have hthree : '3'.toNat - 48 = 3 := by decide
    simp only [tree, power, name, two, three, Tree.value, hn, hname, Literal.digit, htwo,
      hthree, ok_bind, Sign.applied, adjusted, calculated, Scaling.combined]
  exact (expression_of_tree _ tree hspaced hblank).1 _ hvalue

end Cpm80.Basic
