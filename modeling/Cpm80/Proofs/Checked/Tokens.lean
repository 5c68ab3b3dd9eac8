import Cpm80.Proofs.Checked.Bounds
import Cpm80.Proofs.Checked.Places
import Cpm80.Proofs.ExpressionReading

/-!
# Reading tokens by places

A statement is read at a place in it, which moves on with every token; the text of a token is cut
out between two places. A reader that does not find its token leaves the place where it was. Every
cut is checked. The place is always where what is left to read begins, so no check fails.
-/
namespace Cpm80.Basic.Checked

open Text Cpm80.Checked

variable {whole s t rest : List Char} {c : Char} {α : Type}

/-- The place of a part of the text in place of the part. -/
def located (whole : List Char) (found : α × List Char) : α × Nat :=
  (found.1, placeIn whole found.2)

/-! ## The readers -/

/-- The place behind the blanks. -/
def skip (whole : List Char) (place : Nat) : Nat :=
  runEnd isSpace whole place

def peek (whole : List Char) (place : Nat) : Option Char :=
  byteAt? whole (skip whole place)

/-- The place behind the character `c`. -/
def eat? (c : Char) (whole : List Char) (place : Nat) : Option Nat :=
  if peek whole place = some c then some (skip whole place + 1) else none

/-- The place behind a word. Where the text cannot be cut, the word does not stand. -/
def keyword? (word whole : List Char) (place : Nat) : Option Nat :=
  let start := skip whole place
  if (slice? start (start + word.length) whole).any fun found => upper found = word then
    some (start + word.length)
  else none

def identifier? (whole : List Char) (place : Nat) : Option (Option (String × Nat)) :=
  let start := skip whole place
  if (byteAt? whole start).any Char.isAlpha then do
    let stop := runEnd Char.isAlphanum whole (start + 1)
    let stop := if byteAt? whole stop = some '$' then stop + 1 else stop
    let name ← slice? start stop whole
    some (some (String.ofList (upper name), stop))
  else some none

def string? (whole : List Char) (place : Nat) : Option (Option (List Char × Nat)) :=
  match eat? '"' whole place with
  | none => some none
  | some start => do
    let rest ← from? start whole
    match placeOf? (fun c => c = '"') rest with
    | none => some none
    | some length => do
      let text ← slice? start (start + length) whole
      some (some (text, start + length + 1))

/-- The place behind an exponent. -/
def exponentEnd (whole : List Char) (place : Nat) : Nat :=
  if (byteAt? whole place).any fun c => c = 'e' ∨ c = 'E' then
    let digits :=
      if (byteAt? whole (place + 1)).any fun c => c = '+' ∨ c = '-' then place + 2 else place + 1
    if (byteAt? whole digits).any Char.isDigit then runEnd Char.isDigit whole digits else place
  else place

def number? (whole : List Char) (place : Nat) : Option (Option (Float × Nat)) :=
  let start := skip whole place
  let mantissa := runEnd isNumeralChar whole start
  if mantissa = start then some none
  else do
    let stop := exponentEnd whole mantissa
    let word ← slice? start stop whole
    some ((Decimal.unsigned? word).map fun x => (x, stop))

def lineNumber? (whole : List Char) (place : Nat) : Option (Option (Nat × Nat)) := do
  let start := skip whole place
  let rest ← from? start whole
  let room ← sub? (size whole) start
  let length := (placeOf? (fun c => !c.isDigit) rest).getD room
  let word ← slice? start (start + length) whole
  some ((Numeral.bounded? maxLineNumber word).map fun n => (n, start + length))

/-- The relations in the order in which their signs are looked for. -/
def relations : List Relation :=
  [.atMost, .atLeast, .different, .less, .greater, .equal]

def relation? (whole : List Char) (place : Nat) : Option (Option (Relation × Nat)) := do
  let start := skip whole place
  let rest ← from? start whole
  some ((relations.find? fun r => r.token <+: rest).map fun r => (r, start + r.token.length))

/-! ## What they find -/

theorem asciiOnly_isSpace : AsciiOnly isSpace := by
  intro c hc
  simp only [isSpace, Bool.or_eq_true, decide_eq_true_eq] at hc
  rcases hc with (((rfl | rfl) | rfl) | rfl) | rfl <;> decide

theorem asciiOnly_isAlpha : AsciiOnly Char.isAlpha := by
  intro c hc
  rw [isAlpha_iff] at hc
  omega

theorem asciiOnly_isDigit : AsciiOnly Char.isDigit := by
  intro c hc
  have hrange : 48 ≤ c.toNat ∧ c.toNat ≤ 57 :=
    ((Bool.and_eq_true_iff (x := decide _)).trans
      (and_congr decide_eq_true_iff decide_eq_true_iff)).mp hc
  omega

theorem asciiOnly_isAlphanum : AsciiOnly Char.isAlphanum := by
  intro c hc
  rw [Char.isAlphanum, Bool.or_eq_true] at hc
  exact hc.elim (asciiOnly_isAlpha c) (asciiOnly_isDigit c)

theorem asciiOnly_isNumeralChar : AsciiOnly isNumeralChar := by
  intro c hc
  rw [isNumeralChar, Bool.or_eq_true, decide_eq_true_eq] at hc
  rcases hc with hdigit | rfl
  · exact asciiOnly_isDigit c hdigit
  · decide

theorem suffix_skipSpaces (s : List Char) : skipSpaces s <:+ s :=
  List.dropWhile_suffix _

/-- What follows the first character that is no space is a part of the text. -/
theorem suffix_of_skipSpaces (h : skipSpaces s = c :: rest) : rest <:+ s :=
  (List.suffix_cons c rest).trans (h ▸ suffix_skipSpaces s)

theorem skip_placeIn (hs : s <:+ whole) :
    skip whole (placeIn whole s) = placeIn whole (skipSpaces s) :=
  runEnd_placeIn asciiOnly_isSpace hs

theorem any_peek {p : Char → Bool} (hp : AsciiOnly p) (hs : s <:+ whole) :
    (peek whole (placeIn whole s)).any p = (Basic.peek s).any p := by
  rw [peek, skip_placeIn hs, any_byteAt?_placeIn hp ((suffix_skipSpaces s).trans hs)]
  rfl

theorem peek_eq_some_iff (hc : c.toNat < 128) (hs : s <:+ whole) :
    peek whole (placeIn whole s) = some c ↔ Basic.peek s = some c := by
  rw [peek, skip_placeIn hs, byteAt?_placeIn_eq_some_iff hc ((suffix_skipSpaces s).trans hs)]
  rfl

theorem eat?_placeIn (hc : c.toNat < 128) (hs : s <:+ whole) :
    eat? c whole (placeIn whole s) = (Basic.eat? c s).map fun q => placeIn whole q.rest := by
  rw [eat?]
  split
  case isTrue hpeek =>
    obtain ⟨rest, hskip⟩ := List.head?_eq_some_iff.mp ((peek_eq_some_iff hc hs).mp hpeek)
    obtain ⟨hshorter, hfound⟩ := eat?_of_skipSpaces hskip
    have hsuffix : c :: rest <:+ whole := hskip ▸ (suffix_skipSpaces s).trans hs
    rw [hfound, Option.map_some, skip_placeIn hs, hskip, placeIn_cons hsuffix hc]
  case isFalse hpeek =>
    rw [eat?_eq_none fun h => hpeek ((peek_eq_some_iff hc hs).mpr h), Option.map_none]

theorem suffix_of_eat? {q : Reading Unit s.length} (h : Basic.eat? c s = some q) :
    q.rest <:+ s := by
  unfold Basic.eat? at h
  split at h
  · cases h
  case h_2 d rest hskip =>
    split at h
    · cases h
      exact suffix_of_skipSpaces hskip
    · cases h

theorem suffix_of_keyword? {word : List Char} {q : Reading Unit (s.length + 1)}
    (h : Basic.keyword? word s = some q) : q.rest <:+ s := by
  unfold Basic.keyword? at h
  dsimp only at h
  split at h
  · cases h
    exact (List.drop_suffix _ _).trans (suffix_skipSpaces s)
  · cases h

/-- A text whose letters make up a word of one byte each has one byte for each of them. -/
theorem size_of_upper {word : List Char} (hword : ∀ c ∈ word, c.toNat < 128)
    (h : upper t = word) : size t = word.length := by
  subst h
  induction t with
  | nil => rfl
  | cons c t ih =>
    rw [upper, List.map_cons, List.forall_mem_cons, toNat_toUpper] at hword
    have hc : c.toNat < 128 := by
      have hupper := hword.1
      split at hupper <;> omega
    rw [size_cons, utf8Size_of_lt hc, ih hword.2, upper, upper, List.length_map, List.length_map,
      List.length_cons, Nat.add_comm]

theorem keyword?_placeIn {word : List Char} (hword : ∀ c ∈ word, c.toNat < 128)
    (hs : s <:+ whole) :
    keyword? word whole (placeIn whole s) =
      (Basic.keyword? word s).map fun q => placeIn whole q.rest := by
  have hstart : skipSpaces s <:+ whole := (suffix_skipSpaces s).trans hs
  rw [keyword?, skip_placeIn hs]
  unfold Basic.keyword?
  dsimp only
  by_cases htaken : ((skipSpaces s).take word.length).map Char.toUpper = word
  case pos =>
    have hsize := size_of_upper hword htaken
    have hparts := List.take_append_drop word.length (skipSpaces s)
    have hstop := placeIn_add hparts hstart
    have hslice := slice?_placeIn hparts hstart
    rw [hsize] at hstop
    rw [← hstop] at hslice
    rw [if_pos htaken, hslice, Option.any_some,
      if_pos (decide_eq_true (show upper _ = word from htaken)), Option.map_some, ← hstop]
  case neg =>
    rw [if_neg htaken, Option.map_none, if_neg]
    intro hany
    obtain ⟨found, hslice, hfound⟩ := (Option.any_eq_true _ _).mp hany
    obtain ⟨after, hparts, -⟩ := exists_of_slice?_placeIn hstart hslice
    have hupper : upper found = word := of_decide_eq_true hfound
    have hlength : word.length = found.length := by rw [← hupper, upper, List.length_map]
    rw [hparts, hlength, List.take_left] at htaken
    exact htaken hupper

theorem identifier?_eq_none (h : (Basic.peek s).any Char.isAlpha = false) :
    Basic.identifier? s = none := by
  unfold Basic.identifier?
  split
  case h_1 => rfl
  case h_2 c rest hskip =>
    rw [peek_of_skipSpaces hskip, Option.any_some] at h
    rw [h, if_neg Bool.false_ne_true]

theorem identifier?_placeIn (hs : s <:+ whole) :
    identifier? whole (placeIn whole s) =
      some (((Basic.identifier? s).map Reading.parts).map (located whole)) := by
  have hstart : skipSpaces s <:+ whole := (suffix_skipSpaces s).trans hs
  rw [identifier?, skip_placeIn hs, any_byteAt?_placeIn asciiOnly_isAlpha hstart]
  cases hfirst : (skipSpaces s).head?.any Char.isAlpha with
  | false =>
    rw [identifier?_eq_none hfirst]
    rfl
  | true =>
    obtain ⟨c, hhead, hc⟩ := (Option.any_eq_true _ _).mp hfirst
    obtain ⟨rest, hskip⟩ := List.head?_eq_some_iff.mp hhead
    rw [hskip] at hstart
    have hrest : rest <:+ whole := (List.suffix_cons c rest).trans hstart
    have hafter : rest.dropWhile Char.isAlphanum <:+ whole :=
      (List.dropWhile_suffix _).trans hrest
    have hstop : runEnd Char.isAlphanum whole (placeIn whole (c :: rest) + 1) =
        placeIn whole (rest.dropWhile Char.isAlphanum) := by
      rw [placeIn_cons hstart (asciiOnly_isAlpha c hc), runEnd_placeIn asciiOnly_isAlphanum hrest]
    have hdollar : byteAt? whole (placeIn whole (rest.dropWhile Char.isAlphanum)) = some '$' ↔
        (rest.dropWhile Char.isAlphanum).head? = some '$' :=
      byteAt?_placeIn_eq_some_iff (by decide) hafter
    have hparts : rest.takeWhile Char.isAlphanum ++ rest.dropWhile Char.isAlphanum = rest :=
      List.takeWhile_append_dropWhile
    rw [identifier?_of_skipSpaces hskip hc, hskip, hstop, if_pos rfl]
    dsimp only
    by_cases hmark : (rest.dropWhile Char.isAlphanum).head? = some '$'
    case pos =>
      obtain ⟨more, hmore⟩ := List.head?_eq_some_iff.mp hmark
      have hword : (c :: rest.takeWhile Char.isAlphanum ++ ['$']) ++ more = c :: rest := by
        rw [List.append_assoc, List.singleton_append, ← hmore, List.cons_append, hparts]
      have hname := slice?_placeIn hword hstart
      rw [hmore] at hafter
      rw [if_pos (hdollar.mpr hmark), if_pos hmark, hmore,
        placeIn_cons hafter (by decide), hname, Option.bind_eq_bind, Option.bind_some,
        List.drop_one, List.tail_cons, Option.map_some, located, upper, List.map_append]
      rfl
    case neg =>
      have hword : (c :: rest.takeWhile Char.isAlphanum) ++ rest.dropWhile Char.isAlphanum =
          c :: rest := by
        rw [List.cons_append, hparts]
      have hname := slice?_placeIn hword hstart
      rw [if_neg (mt hdollar.mp hmark), if_neg hmark, hname]
      rfl

theorem suffix_of_identifier? {q : Reading String s.length} (h : Basic.identifier? s = some q) :
    q.rest <:+ s := by
  unfold Basic.identifier? at h
  split at h
  · cases h
  case h_2 c rest hskip =>
    have hrest : rest.dropWhile Char.isAlphanum <:+ s :=
      (List.dropWhile_suffix _).trans (suffix_of_skipSpaces hskip)
    split at h
    · dsimp only at h
      split at h
      · cases h
        exact (List.drop_suffix _ _).trans hrest
      · cases h
        exact hrest
    · cases h

theorem suffix_of_string? {q : Reading (List Char) s.length} (h : Basic.string? s = some q) :
    q.rest <:+ s := by
  unfold Basic.string? at h
  split at h
  · cases h
  case h_2 rest hshorter hquote =>
    have hrest : rest <:+ s := suffix_of_eat? hquote
    split at h
    · cases h
    case h_2 mark after hdrop =>
      cases h
      exact ((List.suffix_cons mark after).trans (hdrop ▸ List.dropWhile_suffix _)).trans hrest

theorem string?_of_eat? {q : Reading Unit s.length} (h : Basic.eat? '"' s = some q) :
    (Basic.string? s).map Reading.parts =
      match q.rest.dropWhile fun c => !decide (c = '"') with
      | [] => none
      | _ :: after => some (q.rest.takeWhile fun c => !decide (c = '"'), after) := by
  have hquotes : (fun c => decide (c ≠ '"')) = fun c => !decide (c = '"') :=
    funext fun c => decide_not
  unfold Basic.string?
  rw [h, ← hquotes]
  dsimp only
  split
  case h_1 hdrop => rw [hdrop, Option.map_none]
  case h_2 mark after hdrop => simp only [Option.map_some, Reading.parts, hdrop]

theorem string?_placeIn (hs : s <:+ whole) :
    string? whole (placeIn whole s) =
      some (((Basic.string? s).map Reading.parts).map (located whole)) := by
  rw [string?, eat?_placeIn (by decide) hs]
  cases hquote : Basic.eat? '"' s with
  | none =>
    rw [Basic.string?, hquote]
    rfl
  | some mark =>
    rw [string?_of_eat? hquote]
    obtain ⟨mark, rest, hshorter⟩ := mark
    have hrest : rest <:+ whole := (suffix_of_eat? hquote).trans hs
    rw [Option.map_some]
    dsimp only
    rw [from?_placeIn hrest, Option.bind_eq_bind, Option.bind_some]
    have hsearch := search (fun c => decide (c = '"')) rest
    generalize placeOf? (fun c => decide (c = '"')) rest = place at hsearch
    cases hsearch with
    | missed hskip hend =>
      rw [hend]
      rfl
    | @found text after c hc hskip hend =>
      obtain rfl := of_decide_eq_true hc
      have hmark : '"' :: after <:+ whole := (List.suffix_append text _).trans hrest
      have hstop := placeIn_add rfl hrest
      dsimp only
      rw [hstop, slice?_placeIn rfl hrest, Option.bind_some, placeIn_cons hmark (by decide), hskip,
        hend]
      rfl

theorem drop_length_takeWhile (p : Char → Bool) (s : List Char) :
    s.drop (s.takeWhile p).length = s.dropWhile p := by
  have hdrop := @List.drop_left _ (s.takeWhile p) (s.dropWhile p)
  rwa [List.takeWhile_append_dropWhile] at hdrop

/-- The number of signs in front of the digits of an exponent. -/
def signLength (s : List Char) : Nat :=
  if s.head?.any fun c => c = '+' ∨ c = '-' then 1 else 0

theorem exponentLength_cons {e : Char} (he : e = 'e' ∨ e = 'E') (s : List Char) :
    exponentLength (e :: s) =
      if (s.drop (signLength s)).head?.any Char.isDigit then
        1 + signLength s + ((s.drop (signLength s)).takeWhile Char.isDigit).length
      else 0 := by
  have hdigits (sign : Nat) (digits : List Char) :
      (if (digits.takeWhile Char.isDigit).length = 0 then 0
        else 1 + sign + (digits.takeWhile Char.isDigit).length) =
      if digits.head?.any Char.isDigit then 1 + sign + (digits.takeWhile Char.isDigit).length
        else 0 := by
    cases digits with
    | nil => rfl
    | cons c digits => cases hc : c.isDigit <;> simp [hc]
  rw [← hdigits]
  unfold exponentLength
  simp only [if_pos he]
  cases s with
  | nil => rfl
  | cons c s =>
    have hsign : signLength (c :: s) = if c = '+' ∨ c = '-' then 1 else 0 := by simp [signLength]
    rw [hsign]

theorem exponentEnd_placeIn (hs : s <:+ whole) :
    exponentEnd whole (placeIn whole s) = placeIn whole (s.drop (exponentLength s)) := by
  have hletters : AsciiOnly fun c => c = 'e' ∨ c = 'E' := by
    intro c hc
    rcases of_decide_eq_true hc with rfl | rfl <;> decide
  have hsigns : AsciiOnly fun c => c = '+' ∨ c = '-' := by
    intro c hc
    rcases of_decide_eq_true hc with rfl | rfl <;> decide
  rw [exponentEnd, any_byteAt?_placeIn hletters hs]
  cases s with
  | nil => rfl
  | cons e s =>
    by_cases he : e = 'e' ∨ e = 'E'
    case neg =>
      have hlength : exponentLength (e :: s) = 0 := by
        unfold exponentLength
        exact if_neg he
      rw [hlength, List.head?_cons, Option.any_some, decide_eq_false he,
        if_neg Bool.false_ne_true, List.drop_zero]
    case pos =>
      have htail : s <:+ whole := (List.suffix_cons e s).trans hs
      have hdigits : s.drop (signLength s) <:+ whole := (List.drop_suffix _ _).trans htail
      have hfirst : placeIn whole (e :: s) + 1 = placeIn whole s :=
        placeIn_cons hs (hletters e (decide_eq_true he))
      have hplace : (if (byteAt? whole (placeIn whole s)).any fun c => c = '+' ∨ c = '-' then
          placeIn whole (e :: s) + 2 else placeIn whole s) =
          placeIn whole (s.drop (signLength s)) := by
        rw [any_byteAt?_placeIn hsigns htail, signLength]
        split
        case isTrue hany =>
          obtain ⟨c, hhead, hc⟩ := (Option.any_eq_true _ _).mp hany
          obtain ⟨more, rfl⟩ := List.head?_eq_some_iff.mp hhead
          rw [List.drop_one, List.tail_cons, ← placeIn_cons htail (hsigns c hc), ← hfirst]
        case isFalse => rw [List.drop_zero]
      rw [List.head?_cons, Option.any_some, if_pos (decide_eq_true he), hfirst, hplace]
      dsimp only
      rw [any_byteAt?_placeIn asciiOnly_isDigit hdigits, exponentLength_cons he]
      split
      case isTrue =>
        have hdrop : (e :: s).drop (1 + signLength s +
            ((s.drop (signLength s)).takeWhile Char.isDigit).length) =
            (s.drop (signLength s)).dropWhile Char.isDigit := by
          rw [Nat.add_assoc, Nat.add_comm, List.drop_succ_cons, ← List.drop_drop]
          exact drop_length_takeWhile _ _
        rw [hdrop, runEnd_placeIn asciiOnly_isDigit hdigits]
      case isFalse => rw [List.drop_zero]

theorem suffix_of_number? {q : Reading Float s.length} (h : Basic.number? s = some q) :
    q.rest <:+ s := by
  unfold Basic.number? at h
  dsimp only at h
  split at h
  · obtain ⟨x, -, rfl⟩ := Option.map_eq_some_iff.mp h
    exact (List.drop_suffix _ _).trans (suffix_skipSpaces s)
  · cases h

theorem number?_parts (s : List Char) :
    (Basic.number? s).map Reading.parts =
      let mantissa := (skipSpaces s).takeWhile isNumeralChar
      let rest := (skipSpaces s).dropWhile isNumeralChar
      if mantissa = [] then none
      else (Decimal.unsigned? (mantissa ++ rest.take (exponentLength rest))).map
        fun x => (x, rest.drop (exponentLength rest)) := by
  have hrest := drop_length_takeWhile isNumeralChar (skipSpaces s)
  have hmantissa := @List.take_left _ ((skipSpaces s).takeWhile isNumeralChar)
    ((skipSpaces s).dropWhile isNumeralChar)
  rw [List.takeWhile_append_dropWhile] at hmantissa
  unfold Basic.number?
  dsimp only
  split
  case isTrue hpos =>
    simp only [if_neg (List.length_pos_iff.mp hpos), List.take_add, ← List.drop_drop, hmantissa,
      hrest, Option.map_map, Function.comp_def, Reading.parts]
  case isFalse hzero =>
    rw [if_pos (List.eq_nil_of_length_eq_zero (Nat.eq_zero_of_not_pos hzero)), Option.map_none]

theorem number?_placeIn (hs : s <:+ whole) :
    number? whole (placeIn whole s) =
      some (((Basic.number? s).map Reading.parts).map (located whole)) := by
  have hstart : skipSpaces s <:+ whole := (suffix_skipSpaces s).trans hs
  rw [number?, skip_placeIn hs, runEnd_placeIn asciiOnly_isNumeralChar hstart, number?_parts]
  generalize skipSpaces s = t at hstart
  have hrest : t.dropWhile isNumeralChar <:+ whole := (List.dropWhile_suffix _).trans hstart
  have hparts : t.takeWhile isNumeralChar ++ t.dropWhile isNumeralChar = t :=
    List.takeWhile_append_dropWhile
  have hmantissa := placeIn_add hparts hstart
  dsimp only
  generalize t.takeWhile isNumeralChar = mantissa at *
  generalize t.dropWhile isNumeralChar = rest at *
  cases mantissa with
  | nil =>
    rw [List.nil_append] at hparts
    rw [hparts, if_pos rfl, if_pos rfl]
    rfl
  | cons c mantissa =>
    have hc := c.utf8Size_pos
    have hne : placeIn whole rest ≠ placeIn whole t := by
      rw [← hmantissa, size_cons]
      omega
    have hword : (c :: mantissa ++ rest.take (exponentLength rest)) ++
        rest.drop (exponentLength rest) = t := by
      rw [List.append_assoc, List.take_append_drop, hparts]
    rw [if_neg hne, if_neg (List.cons_ne_nil _ _), exponentEnd_placeIn hrest,
      slice?_placeIn hword hstart, Option.bind_eq_bind, Option.bind_some, Option.map_map]
    rfl

/-- What a reader of line numbers gives is a part of what it was given. -/
theorem suffix_of_lineNumber? {n : Nat} (h : Basic.lineNumber? s = some (n, rest)) :
    rest <:+ s := by
  obtain ⟨_, -, hpair⟩ := Option.map_eq_some_iff.mp h
  obtain ⟨-, rfl⟩ := Prod.mk.inj hpair
  exact (List.dropWhile_suffix _).trans (suffix_skipSpaces s)

theorem lineNumber?_placeIn (hs : s <:+ whole) :
    lineNumber? whole (placeIn whole s) =
      some ((Basic.lineNumber? s).map (located whole)) := by
  have hstart : skipSpaces s <:+ whole := (suffix_skipSpaces s).trans hs
  have hparts : (skipSpaces s).takeWhile Char.isDigit ++ (skipSpaces s).dropWhile Char.isDigit =
      skipSpaces s := List.takeWhile_append_dropWhile
  simp only [lineNumber?, skip_placeIn hs, Basic.lineNumber?, from?_placeIn hstart,
    sub?_of_le (placeIn_le _ _), size_sub_placeIn hstart, getD_placeOf?, Bool.not_not,
    placeIn_add hparts hstart, slice?_placeIn hparts hstart, Option.bind_eq_bind,
    Option.bind_some, Option.map_map]
  rfl

/-- The first sign that stands at the front of a text. -/
theorem find?_relations (c : Char) (rest : List Char) :
    (relations.find? fun r => r.token <+: c :: rest) =
      match c, rest.head? with
      | '<', some '=' => some .atMost
      | '>', some '=' => some .atLeast
      | '<', some '>' => some .different
      | '<', _ => some .less
      | '>', _ => some .greater
      | '=', _ => some .equal
      | _, _ => none := by
  cases rest <;> split <;> simp_all [relations, Relation.token, eq_comm]

/-- The reader takes the sign that is found first. -/
theorem relation?_parts (s : List Char) :
    (Basic.relation? s).map Reading.parts =
      (relations.find? fun r => r.token <+: skipSpaces s).map fun r =>
        (r, (skipSpaces s).drop r.token.length) := by
  cases hskip : skipSpaces s with
  | nil =>
    have hnone : Basic.relation? s = none := by
      apply relation?_eq_none
      simp [Basic.peek, hskip]
    rw [hnone]
    rfl
  | cons c rest =>
    rw [relation?_of_skipSpaces hskip, find?_relations]
    split <;> simp_all [Relation.token]

theorem size_token (r : Relation) : size r.token = r.token.length := by
  cases r <;> rfl

theorem relation?_placeIn (hs : s <:+ whole) :
    relation? whole (placeIn whole s) =
      some (((Basic.relation? s).map Reading.parts).map (located whole)) := by
  have hstart : skipSpaces s <:+ whole := (suffix_skipSpaces s).trans hs
  rw [relation?, skip_placeIn hs, from?_placeIn hstart, Option.bind_eq_bind, Option.bind_some,
    relation?_parts]
  cases hfind : relations.find? fun r => r.token <+: skipSpaces s with
  | none => rfl
  | some r =>
    have hsign := List.find?_some hfind
    obtain ⟨after, hparts⟩ := of_decide_eq_true hsign
    rw [Option.map_some, Option.map_some, Option.map_some, located, ← hparts, List.drop_left,
      hparts, ← size_token, placeIn_add hparts hstart]

theorem suffix_of_relation? {q : Reading Relation s.length} (h : Basic.relation? s = some q) :
    q.rest <:+ s := by
  unfold Basic.relation? at h
  split at h
  · cases h
  case h_2 c rest hskip =>
    have hrest : rest <:+ s := suffix_of_skipSpaces hskip
    dsimp only at h
    split at h
    case h_1 | h_2 | h_3 =>
      cases h
      exact (List.drop_suffix _ _).trans hrest
    case h_4 | h_5 | h_6 =>
      cases h
      exact hrest
    case h_7 => cases h

end Cpm80.Basic.Checked
