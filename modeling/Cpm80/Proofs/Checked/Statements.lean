import Cpm80.Basic.Run
import Cpm80.Proofs.Checked.Expressions

/-!
# Executing statements by places

A statement is read by places and executed while it is read. Beyond the cuts of its tokens, these
are checked: the room that is left in a zone, the branch that is cut off behind a condition, and
the index of the loop that a statement counts on in.
-/
namespace Cpm80.Basic.Checked

open Text Cpm80.Checked

variable {whole s t rest : List Char} {v : Variables} {r : Run} {α : Type}

/-! ## Phrases of statements -/

def isEnd (whole : List Char) (place : Nat) : Bool :=
  (peek whole place).isNone

/-- The place behind a character that has to come next. -/
def demandMark (c : Char) (whole : List Char) (place : Nat) : Attempt Fault (Unit × Nat) :=
  match eat? c whole place with
  | none => throw .badStatement
  | some place => pure ((), place)

def fillZone (out : List Char) : Option (List Char) := do
  let room ← sub? zoneWidth (size out % zoneWidth)
  some (out ++ List.replicate room ' ')

/-- There is at most one round for each item and one for the end. -/
def printItems (v : Variables) (whole : List Char) :
    (rounds : Nat) → (out : List Char) → (endsLine : Bool) → (place : Nat) →
      Attempt Fault (List Char)
  | 0, _, _, _ => liftM (none : Option (List Char))
  | rounds + 1, out, endsLine, place =>
    if isEnd whole place then pure (if endsLine then out ++ lineEnd else out)
    else do
      let (x, place) ← expression v whole place
      let out := out ++ x.render
      match eat? ';' whole place with
      | some place => printItems v whole rounds out false place
      | none =>
        match eat? ',' whole place with
        | some place => do
          let out ← liftM (fillZone out)
          printItems v whole rounds out false place
        | none => if isEnd whole place then pure (out ++ lineEnd) else throw .badStatement

def assignment (v : Variables) (whole : List Char) (place : Nat) :
    Attempt Fault (Variables × Nat) := do
  let (name, place) ← demand (identifier? whole place)
  let (_, place) ← demandMark '=' whole place
  let (x, place) ← expression v whole place
  if isTextName name = x.isText then pure (v.insert name x, place) else throw .typeMismatch

def inputPrompt? (whole : List Char) (place : Nat) : Option (Option (List Char × Nat)) :=
  if peek whole place = some '"' then do
    match ← string? whole place with
    | none => some none
    | some (text, place) =>
      match eat? ';' whole place with
      | some place => some (some (text, place))
      | none => some ((eat? ',' whole place).map fun place => (text, place))
  else some (some ([], place))

def number (v : Variables) (whole : List Char) (place : Nat) : Attempt Fault (Float × Nat) := do
  let (x, place) ← expression v whole place
  let x ← .of x.toNumber
  pure (x, place)

def numberAfter (word : List Char) (v : Variables) (whole : List Char) (place : Nat) :
    Attempt Fault (Float × Nat) :=
  match keyword? word whole place with
  | none => throw .badStatement
  | some place => number v whole place

def loopStep (v : Variables) (whole : List Char) (place : Nat) : Attempt Fault (Float × Nat) :=
  match keyword? ['S', 'T', 'E', 'P'] whole place with
  | none => pure (1, place)
  | some place => number v whole place

def loopHead (v : Variables) (whole : List Char) (place : Nat) :
    Attempt Fault ((String × Float × Float × Float) × Nat) := do
  let (counter, place) ← demand (identifier? whole place)
  let (_, place) ← demandMark '=' whole place
  let (first, place) ← number v whole place
  let (bound, place) ← numberAfter ['T', 'O'] v whole place
  let (step, place) ← loopStep v whole place
  if isTextName counter then throw .typeMismatch
  else pure ((counter, first, bound, step), place)

/-! ## Statements -/

def endingAt (whole : List Char) (place : Nat) (o : Outcome) : Outcome :=
  if isEnd whole place then o else { o with flow := .error .badStatement }

def print (r : Run) (v : Variables) (whole : List Char) (place : Nat) : Option Outcome := do
  match ← (printItems v whole (whole.length + 1) [] true place).run with
  | .ok out => some { run := r, bindings := v, output := out, flow := .ok .next }
  | .error e => some (r.fails v e)

def assign (r : Run) (v : Variables) (whole : List Char) (place : Nat) : Option Outcome := do
  match ← (assignment v whole place).run with
  | .error e => some (r.fails v e)
  | .ok (v, place) => some (endingAt whole place (r.goes v (.ok .next)))

def input (r : Run) (v : Variables) (whole : List Char) (place : Nat) : Option Outcome := do
  match ← inputPrompt? whole place with
  | none => some (r.fails v .badStatement)
  | some (text, place) =>
    match ← identifier? whole place with
    | none => some (r.fails v .badStatement)
    | some (name, place) =>
      if isEnd whole place then
        some { run := r, bindings := v, output := text ++ questionMark, flow := .ok (.input name) }
      else some (r.fails v .badStatement)

def goto (r : Run) (v : Variables) (whole : List Char) (place : Nat) : Option Outcome := do
  match ← lineNumber? whole place with
  | none => some (r.fails v .badStatement)
  | some (number, place) =>
    match r.jumpTo number with
    | .error e => some (r.fails v e)
    | .ok flow => some (endingAt whole place (r.goes v (.ok flow)))

def gosub (r : Run) (v : Variables) (whole : List Char) (place : Nat) : Option Outcome :=
  goto { r with returns := (r.index + 1) :: r.returns } v whole place

def goBack (r : Run) (v : Variables) (whole : List Char) (place : Nat) : Outcome :=
  match r.returns with
  | [] => r.fails v .returnWithoutGosub
  | index :: returns => endingAt whole place ({ r with returns }.goes v (.ok (.jump index)))

def enterLoop (r : Run) (v : Variables) (whole : List Char) (place : Nat) : Option Outcome := do
  match ← (loopHead v whole place).run with
  | .error e => some (r.fails v e)
  | .ok ((counter, first, bound, step), place) =>
    let loops := ⟨counter, bound, step, r.index + 1⟩ :: outside counter r.loops
    some (endingAt whole place
      ({ r with loops }.goes (v.insert counter (.number first)) (.ok .next)))

/-- The index of the last of the open loops with a counter, of which the outermost comes first. -/
def lastIndex? (counter : String) (frames : List Loop) : Option Nat :=
  (frames.reverse.findIdx? fun l => l.counter = counter).map fun i => frames.length - 1 - i

/-- Counts on in the loop with an index; the loops inside it are cut off. -/
def countOn (r : Run) (v : Variables) (whole : List Char) (place index : Nat) :
    Option Outcome := do
  let frames := r.loops.reverse.take (index + 1)
  let l ← frames[index]?
  match (v.value l.counter).toNumber with
  | .error e => some (r.fails v e)
  | .ok x =>
    let v := v.insert l.counter (.number (x + l.step))
    some (endingAt whole place
      (if l.goesOn (x + l.step) then
        { r with loops := frames.reverse }.goes v (.ok (.jump l.body))
      else { r with loops := frames.dropLast.reverse }.goes v (.ok .next)))

def endLoop (r : Run) (v : Variables) (whole : List Char) (place : Nat) : Option Outcome := do
  let frames := r.loops.reverse
  let (index, place) ← do
    match ← identifier? whole place with
    | none => some (if frames.isEmpty then none else some (frames.length - 1), place)
    | some (counter, place) => some (lastIndex? counter frames, place)
  match index with
  | none => some (r.fails v .nextWithoutFor)
  | some index => countOn r v whole place index

/-- A statement has no more branches inside each other than its depth. -/
def execute (r : Run) (v : Variables) : (depth : Nat) → (code : List Char) → Option Outcome
  | 0, _ => none
  | depth + 1, code =>
    if isRemark code then some (r.goes v (.ok .next))
    else
      match eat? '?' code 0 with
      | some place => print r v code place
      | none => do
        match ← identifier? code 0 with
        | none => some (endingAt code 0 (r.goes v (.ok .next)))
        | some (word, place) =>
          match Verb.ofWord? word with
          | none => assign r v code 0
          | some .print => print r v code place
          | some .assign => assign r v code place
          | some .input => input r v code place
          | some .goto => goto r v code place
          | some .gosub => gosub r v code place
          | some .goBack => some (goBack r v code place)
          | some .enterLoop => enterLoop r v code place
          | some .endLoop => endLoop r v code place
          | some .stop => some (endingAt code place (r.goes v (.ok .stop)))
          | some .condition => do
            match ← (expression v code place).run with
            | .error e => some (r.fails v e)
            | .ok (x, place) =>
              match keyword? ['T', 'H', 'E', 'N'] code place with
              | none => some (r.fails v .badStatement)
              | some place => do
                let branch ← from? place code
                if x.isTrue then
                  match Numeral.bounded? maxLineNumber (trim branch) with
                  | some number => some (r.goes v (r.jumpTo number))
                  | none => execute r v depth (trim branch)
                else some (r.goes v (.ok .next))

/-! ## What they read -/

theorem isEnd_placeIn (hs : s <:+ whole) : isEnd whole (placeIn whole s) = Basic.isEnd s := by
  have hstart : skipSpaces s <:+ whole := (suffix_skipSpaces s).trans hs
  rw [isEnd, peek, skip_placeIn hs, Basic.isEnd, Basic.peek]
  cases hskip : skipSpaces s with
  | nil =>
    rw [byteAt?_placeIn_nil]
    rfl
  | cons c rest =>
    obtain ⟨d, hd, -⟩ := exists_byteAt?_placeIn (hskip ▸ hstart)
    rw [hd]
    rfl

theorem follows_demandMark {c : Char} (hc : c.toNat < 128) (hs : s <:+ whole) :
    Follows whole s (demandMark c whole (placeIn whole s)) (found (Basic.eat? c s)) := by
  rw [demandMark, eat?_placeIn hc hs]
  cases hmark : Basic.eat? c s with
  | none => exact .error _
  | some mark => exact .ok () (suffix_of_eat? hmark)

theorem follows_identifier (hs : s <:+ whole) :
    Follows whole s (demand (identifier? whole (placeIn whole s)))
      (found (Basic.identifier? s)) := by
  rw [identifier?_placeIn hs]
  exact follows_demand fun _ => suffix_of_identifier?

theorem fillZone_eq (out : List Char) : fillZone out = some (Basic.fillZone out) := by
  have hroom : size out % zoneWidth ≤ zoneWidth := Nat.le_of_lt (Nat.mod_lt _ (by decide))
  rw [fillZone, sub?_of_le hroom]
  rfl

theorem printItems_eq (v : Variables) (rounds : Nat) (out : List Char) (endsLine : Bool)
    (hs : s <:+ whole) (hrounds : s.length < rounds) :
    printItems v whole rounds out endsLine (placeIn whole s) =
      .of (Basic.printItems v out endsLine s) := by
  induction rounds generalizing out endsLine s with
  | zero => exact absurd hrounds (Nat.not_lt_zero _)
  | succ rounds ih =>
    rw [printItems, Basic.printItems, isEnd_placeIn hs]
    split
    case isTrue => rfl
    case isFalse =>
      obtain ⟨hread, hrest⟩ := follows_expression v hs
      rw [hread]
      cases hexpression : Basic.expression v s with
      | error e => rfl
      | ok q =>
        obtain ⟨x, rest, hshorter⟩ := q
        have hsuffix : rest <:+ whole :=
          (hrest x rest (by rw [hexpression]; rfl)).trans hs
        simp only [outcome_ok, Except.map, located, Attempt.of_ok_bind]
        rw [eat?_placeIn (by decide) hsuffix]
        cases hsemicolon : Basic.eat? ';' rest with
        | some mark =>
          have hmark := suffix_of_eat? hsemicolon
          have hless := mark.shorter
          exact ih _ _ (hmark.trans hsuffix) (by omega)
        | none =>
          dsimp only [Option.map_none]
          rw [eat?_placeIn (by decide) hsuffix]
          cases hcomma : Basic.eat? ',' rest with
          | some mark =>
            have hmark := suffix_of_eat? hcomma
            have hless := mark.shorter
            dsimp only [Option.map_some]
            rw [fillZone_eq]
            exact ih _ _ (hmark.trans hsuffix) (by omega)
          | none =>
            dsimp only [Option.map_none]
            rw [isEnd_placeIn hsuffix, Attempt.pure_eq, Attempt.throw_eq, ← apply_ite Attempt.of]

theorem assignment_eq_bind (v : Variables) (s : List Char) :
    Basic.assignment v s = (do
      let (name, rest) ← found (Basic.identifier? s)
      let (_, rest) ← found (Basic.eat? '=' rest)
      let (x, rest) ← outcome (Basic.expression v rest)
      if isTextName name = x.isText then .ok (v.insert name x, rest)
      else .error .typeMismatch) := by
  rw [Basic.assignment]
  cases Basic.identifier? s with
  | none => rfl
  | some q =>
    obtain ⟨name, rest, hname⟩ := q
    change _ = (found (Basic.eat? '=' rest) >>= _)
    dsimp only
    cases Basic.eat? '=' rest with
    | none => rfl
    | some mark =>
      obtain ⟨mark, rest, hmark⟩ := mark
      change _ = (outcome (Basic.expression v rest) >>= _)
      dsimp only
      cases Basic.expression v rest <;> rfl

theorem follows_assignment (v : Variables) (hs : s <:+ whole) :
    Follows whole s (assignment v whole (placeIn whole s)) (Basic.assignment v s) := by
  rw [assignment_eq_bind]
  refine (follows_identifier hs).bind fun name rest hrest => ?_
  refine (follows_demandMark (by decide) (hrest.trans hs)).bind fun _ after hafter => ?_
  have hafter := hafter.trans hrest
  refine (follows_expression v (hafter.trans hs)).bind fun x last hlast => ?_
  dsimp only
  split
  · exact .ok _ (hlast.trans hafter)
  · exact .error _

theorem number_eq_bind (v : Variables) (s : List Char) :
    Basic.number v s = (do
      let (x, rest) ← outcome (Basic.expression v s)
      let x ← x.toNumber
      .ok (x, rest)) := by
  rw [Basic.number]
  cases Basic.expression v s with
  | error e => rfl
  | ok q =>
    obtain ⟨x, rest, hshorter⟩ := q
    cases x <;> rfl

theorem follows_number (v : Variables) (hs : s <:+ whole) :
    Follows whole s (number v whole (placeIn whole s)) (Basic.number v s) := by
  rw [number_eq_bind]
  refine (follows_expression v hs).bind fun x rest hrest => ?_
  exact .compute _ fun x => .ok x hrest

theorem follows_numberAfter {word : List Char} (hword : ∀ c ∈ word, c.toNat < 128) (v : Variables)
    (hs : s <:+ whole) :
    Follows whole s (numberAfter word v whole (placeIn whole s)) (Basic.numberAfter word v s) := by
  rw [numberAfter, Basic.numberAfter, keyword?_placeIn hword hs]
  cases hfound : Basic.keyword? word s with
  | none => exact .error _
  | some q =>
    have hrest := suffix_of_keyword? hfound
    exact (follows_number v (hrest.trans hs)).mono hrest

theorem follows_loopStep (v : Variables) (hs : s <:+ whole) :
    Follows whole s (loopStep v whole (placeIn whole s)) (Basic.loopStep v s) := by
  rw [loopStep, Basic.loopStep, keyword?_placeIn (by simp) hs]
  cases hfound : Basic.keyword? ['S', 'T', 'E', 'P'] s with
  | none => exact .ok 1 List.suffix_rfl
  | some q =>
    have hrest := suffix_of_keyword? hfound
    exact (follows_number v (hrest.trans hs)).mono hrest

/-- The head of a loop apart from what follows it. -/
def headParts (head : String × Float × Float × Float × List Char) :
    (String × Float × Float × Float) × List Char :=
  ((head.1, head.2.1, head.2.2.1, head.2.2.2.1), head.2.2.2.2)

theorem loopHead_eq_bind (v : Variables) (s : List Char) :
    (Basic.loopHead v s).map headParts = (do
      let (counter, rest) ← found (Basic.identifier? s)
      let (_, rest) ← found (Basic.eat? '=' rest)
      let (first, rest) ← Basic.number v rest
      let (bound, rest) ← Basic.numberAfter ['T', 'O'] v rest
      let (step, rest) ← Basic.loopStep v rest
      if isTextName counter then .error .typeMismatch
      else .ok ((counter, first, bound, step), rest)) := by
  rw [Basic.loopHead]
  cases Basic.identifier? s with
  | none => rfl
  | some q =>
    obtain ⟨counter, rest, hcounter⟩ := q
    change _ = (found (Basic.eat? '=' rest) >>= _)
    dsimp only
    cases Basic.eat? '=' rest with
    | none => rfl
    | some mark =>
      obtain ⟨mark, rest, hmark⟩ := mark
      change _ = (Basic.number v rest >>= _)
      dsimp only
      rcases Basic.number v rest with e | ⟨first, rest⟩
      · rfl
      simp only [ok_bind]
      rcases Basic.numberAfter ['T', 'O'] v rest with e | ⟨bound, rest⟩
      · rfl
      simp only [ok_bind]
      rcases Basic.loopStep v rest with e | ⟨step, rest⟩
      · rfl
      simp only [ok_bind]
      split <;> rfl

theorem follows_loopHead (v : Variables) (hs : s <:+ whole) :
    Follows whole s (loopHead v whole (placeIn whole s))
      ((Basic.loopHead v s).map headParts) := by
  rw [loopHead_eq_bind]
  refine (follows_identifier hs).bind fun counter rest hrest => ?_
  refine (follows_demandMark (by decide) (hrest.trans hs)).bind fun _ rest hmark => ?_
  have hrest := hmark.trans hrest
  refine (follows_number v (hrest.trans hs)).bind fun first rest hfirst => ?_
  have hrest := hfirst.trans hrest
  refine (follows_numberAfter (by simp) v (hrest.trans hs)).bind fun bound rest hbound => ?_
  have hrest := hbound.trans hrest
  refine (follows_loopStep v (hrest.trans hs)).bind fun step rest hstep => ?_
  dsimp only
  split
  · exact .error _
  · exact .ok _ (hstep.trans hrest)

theorem suffix_of_inputPrompt? {text : List Char}
    (h : Basic.inputPrompt? s = some (text, rest)) : rest <:+ s := by
  unfold Basic.inputPrompt? at h
  split at h
  case isFalse =>
    cases h
    exact List.suffix_rfl
  case isTrue =>
    split at h
    · cases h
    case h_2 text after hshorter htext =>
      have hafter : after <:+ s := suffix_of_string? htext
      split at h
      case h_1 hmark =>
        cases h
        exact (suffix_of_eat? hmark).trans hafter
      case h_2 =>
        obtain ⟨mark, hmark, hpair⟩ := Option.map_eq_some_iff.mp h
        cases hpair
        exact (suffix_of_eat? hmark).trans hafter

theorem inputPrompt?_placeIn (hs : s <:+ whole) :
    inputPrompt? whole (placeIn whole s) =
      some ((Basic.inputPrompt? s).map (located whole)) := by
  rw [inputPrompt?, Basic.inputPrompt?, string?_placeIn hs]
  by_cases hquote : Basic.peek s = some '"'
  case neg =>
    rw [if_neg hquote, if_neg (mt (peek_eq_some_iff (by decide) hs).mp hquote)]
    rfl
  case pos =>
    rw [if_pos hquote, if_pos ((peek_eq_some_iff (by decide) hs).mpr hquote)]
    cases htext : Basic.string? s with
    | none => rfl
    | some q =>
      have hrest := (suffix_of_string? htext).trans hs
      simp only [Option.map_some, Reading.parts, located, Option.bind_eq_bind, Option.bind_some,
        eat?_placeIn (c := ';') (by decide) hrest, eat?_placeIn (c := ',') (by decide) hrest]
      cases Basic.eat? ';' q.rest with
      | some mark => rfl
      | none => cases Basic.eat? ',' q.rest <;> rfl

/-! ## What statements do -/

theorem endingAt_placeIn (hs : s <:+ whole) (o : Outcome) :
    endingAt whole (placeIn whole s) o = o.endingAt s := by
  rw [endingAt, isEnd_placeIn hs, Outcome.endingAt]

theorem print_eq (hs : s <:+ whole) :
    print r v whole (placeIn whole s) = some (Basic.print r v s) := by
  rw [print, printItems_eq v _ _ _ hs (Nat.lt_succ_of_le hs.length_le), Basic.print]
  change (match Basic.printItems v [] true s with | .ok out => _ | .error e => _) = _
  cases Basic.printItems v [] true s <;> rfl

theorem assign_eq (hs : s <:+ whole) :
    assign r v whole (placeIn whole s) = some (Basic.assign r v s) := by
  obtain ⟨hread, hrest⟩ := follows_assignment v hs
  rw [assign, hread, Basic.assign]
  cases hassignment : Basic.assignment v s with
  | error e => rfl
  | ok q => exact congrArg some (endingAt_placeIn ((hrest _ _ hassignment).trans hs) _)

theorem input_eq (hs : s <:+ whole) :
    input r v whole (placeIn whole s) = some (Basic.input r v s) := by
  rw [input, Basic.input, inputPrompt?_placeIn hs]
  cases hprompt : Basic.inputPrompt? s with
  | none => rfl
  | some q =>
    obtain ⟨text, rest⟩ := q
    have hrest := (suffix_of_inputPrompt? hprompt).trans hs
    simp only [Option.map_some, located, Option.bind_eq_bind, Option.bind_some,
      identifier?_placeIn hrest]
    cases hname : Basic.identifier? rest with
    | none => rfl
    | some q =>
      have hafter := (suffix_of_identifier? hname).trans hrest
      simp only [Option.map_some, Reading.parts, located, isEnd_placeIn hafter, apply_ite some]

theorem goto_eq (hs : s <:+ whole) :
    goto r v whole (placeIn whole s) = some (Basic.goto r v s) := by
  rw [goto, Basic.goto, lineNumber?_placeIn hs]
  cases hnumber : Basic.lineNumber? s with
  | none => rfl
  | some q =>
    have hrest := (suffix_of_lineNumber? hnumber).trans hs
    simp only [Option.map_some, located, Option.bind_eq_bind, Option.bind_some]
    cases r.jumpTo q.1 with
    | error e => rfl
    | ok flow => exact congrArg some (endingAt_placeIn hrest _)

theorem gosub_eq (hs : s <:+ whole) :
    gosub r v whole (placeIn whole s) = some (Basic.gosub r v s) :=
  goto_eq hs

theorem goBack_eq (hs : s <:+ whole) :
    goBack r v whole (placeIn whole s) = Basic.goBack r v s := by
  rw [goBack, Basic.goBack]
  cases r.returns with
  | nil => rfl
  | cons index returns => exact endingAt_placeIn hs _

theorem enterLoop_eq (hs : s <:+ whole) :
    enterLoop r v whole (placeIn whole s) = some (Basic.enterLoop r v s) := by
  obtain ⟨hread, hrest⟩ := follows_loopHead v hs
  rw [enterLoop, hread, Basic.enterLoop]
  cases hhead : Basic.loopHead v s with
  | error e => rfl
  | ok head =>
    have hsuffix := (hrest _ _ (congrArg (Except.map headParts) hhead)).trans hs
    exact congrArg some (endingAt_placeIn hsuffix _)

/-- The loop that is counted on in is the innermost one but for those that are cut off. -/
theorem countOn_eq {i : Nat} (hi : i < r.loops.length) (hs : s <:+ whole) :
    countOn r v whole (placeIn whole s) (r.loops.length - 1 - i) =
      some (Basic.countOn r v s (r.loops.drop i)) := by
  have hframes : r.loops.reverse.take (r.loops.length - 1 - i + 1) = (r.loops.drop i).reverse := by
    rw [List.take_reverse]
    congr 2
    omega
  have hlength : (r.loops.drop i).length = r.loops.length - 1 - i + 1 := by
    rw [List.length_drop]
    omega
  rw [countOn, hframes]
  cases hloops : r.loops.drop i with
  | nil => simp [hloops] at hlength
  | cons l outer =>
    have hindex : r.loops.length - 1 - i = outer.reverse.length := by
      rw [hloops, List.length_cons] at hlength
      rw [List.length_reverse]
      omega
    rw [List.reverse_cons, hindex, List.getElem?_concat_length, Option.bind_eq_bind,
      Option.bind_some, List.dropLast_concat, List.reverse_append, List.reverse_reverse,
      Basic.countOn]
    cases (v.value l.counter).toNumber with
    | error e => rfl
    | ok x => exact congrArg some (endingAt_placeIn hs _)

theorem endLoop_eq (hs : s <:+ whole) :
    endLoop r v whole (placeIn whole s) = some (Basic.endLoop r v s) := by
  rw [endLoop, Basic.endLoop, identifier?_placeIn hs]
  cases hname : Basic.identifier? s with
  | none =>
    cases hloops : r.loops with
    | nil => rfl
    | cons l outer =>
      have hpos : 0 < r.loops.length := by
        rw [hloops]
        exact Nat.succ_pos _
      have hcount := countOn_eq (v := v) hpos hs
      rw [Nat.sub_zero, List.drop_zero, hloops] at hcount
      simpa using hcount
  | some q =>
    obtain ⟨counter, rest, hshorter⟩ := q
    have hrest := (suffix_of_identifier? hname).trans hs
    have hdrop : (r.loops.dropWhile fun l => l.counter ≠ counter) =
        r.loops.drop (r.loops.findIdx fun l => l.counter = counter) := by
      rw [List.dropWhile_eq_drop_findIdx_not]
      simp
    simp only [Option.map_some, Reading.parts, located, Option.bind_eq_bind, Option.bind_some,
      lastIndex?, List.reverse_reverse, List.length_reverse]
    cases hindex : r.loops.findIdx? fun l => l.counter = counter with
    | none =>
      have hall : r.loops.dropWhile (fun l => l.counter ≠ counter) = [] := by
        rw [List.dropWhile_eq_nil_iff]
        intro l hl
        simpa using List.findIdx?_eq_none_iff.mp hindex l hl
      rw [hall]
      rfl
    | some i =>
      obtain ⟨hi, hfirst⟩ := List.findIdx?_eq_some_iff_findIdx_eq.mp hindex
      rw [hdrop, hfirst]
      exact countOn_eq hi hrest

theorem execute_eq (r : Run) (v : Variables) {depth : Nat} {code : List Char}
    (h : code.length < depth) : execute r v depth code = some (Basic.execute r v code) := by
  induction depth generalizing code with
  | zero => exact absurd h (Nat.not_lt_zero _)
  | succ depth ih =>
    have hcode : code <:+ code := List.suffix_rfl
    have hstart : 0 = placeIn code code := (placeIn_self code).symm
    rw [execute, Basic.execute, hstart, eat?_placeIn (by decide) hcode, identifier?_placeIn hcode]
    by_cases hremark : isRemark code = true
    · rw [if_pos hremark, if_pos hremark]
    rw [if_neg hremark, if_neg hremark]
    cases hquestion : Basic.eat? '?' code with
    | some mark => exact print_eq (suffix_of_eat? hquestion)
    | none =>
      simp only [Option.map_none, Option.bind_eq_bind, Option.bind_some]
      cases hword : Basic.identifier? code with
      | none => exact congrArg some (endingAt_placeIn hcode _)
      | some q =>
        obtain ⟨word, rest, hshorter⟩ := q
        have hrest : rest <:+ code := suffix_of_identifier? hword
        simp only [Option.map_some, Reading.parts, located]
        rcases Verb.ofWord? word with _ | verb
        · exact assign_eq hcode
        · cases verb with
          | print => exact print_eq hrest
          | assign => exact assign_eq hrest
          | input => exact input_eq hrest
          | goto => exact goto_eq hrest
          | gosub => exact gosub_eq hrest
          | goBack => exact congrArg some (goBack_eq hrest)
          | enterLoop => exact enterLoop_eq hrest
          | endLoop => exact endLoop_eq hrest
          | stop => exact congrArg some (endingAt_placeIn hrest _)
          | condition =>
            obtain ⟨hread, hleft⟩ := follows_expression v hrest
            simp only [hread]
            cases hexpression : Basic.expression v rest with
            | error e => rfl
            | ok q =>
              obtain ⟨x, last, hlast⟩ := q
              have hlast := (hleft x last (by rw [hexpression]; rfl)).trans hrest
              simp only [outcome_ok, Except.map, located, Attempt.run_of, Option.bind_some]
              rw [keyword?_placeIn (by simp) hlast]
              cases hthen : Basic.keyword? ['T', 'H', 'E', 'N'] last with
              | none => rfl
              | some q =>
                have hbranch := (suffix_of_keyword? hthen).trans hlast
                simp only [Option.map_some, from?_placeIn hbranch, Option.bind_some]
                split
                case isTrue =>
                  cases Numeral.bounded? maxLineNumber (trim q.rest) with
                  | some number => rfl
                  | none =>
                    have htrim := length_trim q.rest
                    have hless := q.shorter
                    have hle := hlast.length_le
                    exact ih (by omega)
                case isFalse => rfl

end Cpm80.Basic.Checked
