import Cpm80.Proofs.Blanks
import Cpm80.Proofs.Checked.Editing
import Cpm80.Proofs.Numerals
import Cpm80.Proofs.SavedBuffers

/-!
# The lines that typing leaves

A user of the editor thinks of a list of lines, which grows at its end and loses the lines that are
named, and does not think of a cursor. The editor has one, but keeps it behind the last line: every
line that is put in moves it on, and no line can be taken out without moving it back. So the lines
in the editor are those of the list, whatever is typed.
-/
namespace Cpm80.LineEditor

open Text Numeral

variable {e : LineEditor} {letter : Char} {argument input : List Char} {n m count : Nat}

/-! ## Commands as they are typed -/

/-- A command is a letter in either case with its argument behind it. Blanks in front of the two,
between them and behind them do not count. -/
inductive IsCommand (letter : Char) (argument : List Char) : List Char → Prop
  | typed {before between after : List Char} {first : Char} (hbefore : Blank before)
    (hfirst : first.toUpper = letter) (hbetween : Blank between) (hafter : Blank after) :
    IsCommand letter argument (before ++ first :: (between ++ argument ++ after))

/-- The command to enter insert mode, whatever is typed behind its letter. -/
def Enters (input : List Char) : Prop :=
  ∃ argument, IsCommand 'I' argument input

/-- The command to delete the line with a number. No number of more than 64 bits can be typed. -/
def Deletes (n : Nat) (input : List Char) : Prop :=
  n < 2 ^ 64 ∧ ∃ argument, IsCommand 'D' argument input ∧ IsCount argument n

theorem IsCommand.upper_trim (h : IsCommand letter argument input)
    (hletter : isBlank letter = false) :
    ∃ rest, upper (trim input) = letter :: rest ∧ trim rest = upper (trim argument) := by
  obtain @⟨before, between, after, first, hbefore, hfirst, hbetween, hafter⟩ := h
  have hblank : isBlank first = false := by
    rw [← isBlank_toUpper, hfirst, hletter]
  have htrim : trim (before ++ first :: (between ++ argument ++ after)) =
      first :: trimEnd (between ++ argument ++ after) := by
    rw [trim, trimStart_append_cons hblank, hbefore.trimStart_eq]
    exact trimEnd_append_cons hblank [] _
  refine ⟨upper (trimEnd (between ++ argument ++ after)), ?_, ?_⟩
  · rw [htrim, ← hfirst]
    rfl
  · rw [trim_upper, trim_trimEnd, hafter.trim_append_right, hbetween.trim_append_left]

theorem exists_isCommand {rest : List Char} (h : upper (trim input) = letter :: rest) :
    ∃ argument, IsCommand letter argument input ∧ trim rest = upper argument := by
  obtain ⟨before, after, hbefore, hafter, hinput⟩ := exists_blanks_trim input
  obtain ⟨first, tail, htrim, hfirst, hrest⟩ := List.map_eq_cons_iff.mp h
  obtain ⟨between, behind, hbetween, hbehind, htail⟩ := exists_blanks_trim tail
  have hparts : input = before ++ first :: (between ++ trim tail ++ (behind ++ after)) := by
    rw [hinput, htrim, List.append_assoc, List.cons_append, ← List.append_assoc (_ ++ _), ← htail]
  refine ⟨trim tail, ?_, ?_⟩
  · rw [hparts]
    exact .typed hbefore hfirst hbetween (hbehind.append hafter)
  · rw [← hrest]
    exact trim_upper tail

theorem enters_iff : Enters input ↔ ∃ rest, upper (trim input) = 'I' :: rest := by
  constructor
  · rintro ⟨argument, h⟩
    obtain ⟨rest, hinput, -⟩ := h.upper_trim rfl
    exact ⟨rest, hinput⟩
  · rintro ⟨rest, hinput⟩
    obtain ⟨argument, h, -⟩ := exists_isCommand hinput
    exact ⟨argument, h⟩

theorem deletes_iff :
    Deletes n input ↔
      ∃ rest, upper (trim input) = 'D' :: rest ∧ bounded? maxNumber (trim rest) = some n := by
  have hword : n < 2 ^ 64 ↔ n ≤ maxNumber := by
    rw [maxNumber]
    omega
  simp only [bounded?_eq_some_iff, ← hword]
  constructor
  · rintro ⟨hfits, argument, h, hcount⟩
    obtain ⟨rest, hinput, hrest⟩ := h.upper_trim rfl
    have hupper : upper argument = argument := (upper_eq_iff hcount.not_isAlpha).mpr rfl
    rw [trim_of_tight hcount.unbroken.tight, hupper] at hrest
    exact ⟨rest, hinput, hrest ▸ hcount, hfits⟩
  · rintro ⟨rest, hinput, hcount, hfits⟩
    obtain ⟨argument, h, hrest⟩ := exists_isCommand hinput
    have hupper : argument = trim rest := (upper_eq_iff hcount.not_isAlpha).mp hrest.symm
    exact ⟨hfits, argument, h, hupper ▸ hcount⟩

theorem Deletes.not_enters (h : Deletes n input) : ¬Enters input := by
  intro henters
  obtain ⟨rest, hinput, -⟩ := deletes_iff.mp h
  obtain ⟨other, hother⟩ := enters_iff.mp henters
  rw [hinput] at hother
  cases hother

theorem Deletes.unique (h : Deletes n input) (h' : Deletes m input) : n = m := by
  obtain ⟨rest, hinput, hn⟩ := deletes_iff.mp h
  obtain ⟨other, hother, hm⟩ := deletes_iff.mp h'
  obtain rfl : rest = other := (List.cons.inj (hinput.symm.trans hother)).2
  exact Option.some.inj (hn.symm.trans hm)

/-! ## Requests -/

/-- What a user can ask of the lines. -/
inductive Request
  | nothing
  | turn (inserting : Bool)
  | append (line : List Char)
  | remove (n : Nat)

/-- What an input asks for: in insert mode to append it, or to leave the mode if it is empty, and
else to enter the mode or to remove one of so many lines. All other input asks for nothing. -/
inductive Asks (count : Nat) : Bool → List Char → Request → Prop
  | append {input : List Char} (hsome : input ≠ []) : Asks count true input (.append input)
  | leave : Asks count true [] (.turn false)
  | enter {input : List Char} (h : Enters input) : Asks count false input (.turn true)
  | remove {input : List Char} {n : Nat} (h : Deletes n input) (hfirst : 1 ≤ n)
    (hlast : n ≤ count) : Asks count false input (.remove n)
  | nothing {input : List Char} (henters : ¬Enters input)
    (hdeletes : ∀ n, 1 ≤ n → n ≤ count → ¬Deletes n input) : Asks count false input .nothing

theorem Asks.unique {inserting : Bool} {r r' : Request} (h : Asks count inserting input r)
    (h' : Asks count inserting input r') : r = r' := by
  cases h with
  | append hsome =>
    cases h' with
    | append => rfl
    | leave => exact absurd rfl hsome
  | leave =>
    cases h' with
    | append hsome => exact absurd rfl hsome
    | leave => rfl
  | enter h =>
    cases h' with
    | enter => rfl
    | remove h' => exact absurd h h'.not_enters
    | nothing henters => exact absurd h henters
  | remove h hfirst hlast =>
    cases h' with
    | enter h' => exact absurd h' h.not_enters
    | remove h' => exact congrArg Request.remove (h.unique h')
    | nothing _ hdeletes => exact absurd h (hdeletes _ hfirst hlast)
  | nothing henters hdeletes =>
    cases h' with
    | enter h' => exact absurd h' henters
    | remove h' hfirst hlast => exact absurd h' (hdeletes _ hfirst hlast)
    | nothing => rfl

/-- The editor with a request granted. -/
def grant (e : LineEditor) : Request → LineEditor
  | .nothing => e
  | .turn inserting => { e with inserting }
  | .append line => e.insertLine line
  | .remove n => e.deleteLine n

theorem delete_grants (e : LineEditor) (s : Station)
    (hinput : upper (trim input) = 'D' :: argument) :
    ∃ r, Asks e.lines.length false input r ∧ (e.delete (trim argument) s).1 = e.grant r := by
  have henters : ¬Enters input := by
    rw [enters_iff, hinput]
    rintro ⟨rest, hrest⟩
    cases hrest
  have hdeletes (n : Nat) : Deletes n input ↔ bounded? maxNumber (trim argument) = some n := by
    rw [deletes_iff, hinput]
    constructor
    · rintro ⟨rest, hrest, hn⟩
      obtain rfl := (List.cons.inj hrest).2
      exact hn
    · exact fun hn => ⟨argument, rfl, hn⟩
  unfold delete
  split
  case h_1 n hn =>
    split
    case isTrue hrange =>
      exact ⟨.remove n, .remove ((hdeletes n).mpr hn) hrange.1 hrange.2, rfl⟩
    case isFalse hrange =>
      refine ⟨.nothing, .nothing henters fun m hfirst hlast hm => hrange ?_, rfl⟩
      obtain rfl : n = m := Option.some.inj (hn.symm.trans ((hdeletes m).mp hm))
      exact ⟨hfirst, hlast⟩
  case h_2 hnone =>
    refine ⟨.nothing, .nothing henters fun m _ _ hm => ?_, rfl⟩
    rw [hdeletes, hnone] at hm
    cases hm

theorem asks_nothing (henters : (upper (trim input)).head? ≠ some 'I')
    (hdeletes : (upper (trim input)).head? ≠ some 'D') : Asks count false input .nothing := by
  refine .nothing ?_ ?_
  · rw [enters_iff]
    rintro ⟨rest, hrest⟩
    exact henters (by rw [hrest, List.head?_cons])
  · intro n _ _ h
    obtain ⟨rest, hrest, -⟩ := deletes_iff.mp h
    exact hdeletes (by rw [hrest, List.head?_cons])

theorem command_grants (e : LineEditor) (input : List Char) (s : Station) :
    ∃ r, Asks e.lines.length false input r ∧ (e.command input s).1 = e.grant r := by
  unfold command
  split
  case h_1 hinput =>
    exact ⟨.nothing, asks_nothing (by simp [hinput]) (by simp [hinput]), rfl⟩
  case h_2 letter rest hinput =>
    dsimp only
    split
    case h_1 => exact ⟨.turn true, .enter (enters_iff.mpr ⟨rest, hinput⟩), rfl⟩
    case h_2 => exact delete_grants e s hinput
    case h_7 hI hD _ _ _ _ =>
      exact ⟨.nothing, asks_nothing (by simpa [hinput] using hI) (by simpa [hinput] using hD), rfl⟩
    all_goals exact ⟨.nothing, asks_nothing (by simp [hinput]) (by simp [hinput]), rfl⟩

/-- Whatever is typed, the editor grants what the input asks for, and does no more. -/
theorem handle_grants (e : LineEditor) (input : List Char) (s : Station) :
    ∃ r, Asks e.lines.length e.inserting input r ∧ (e.handle input s).1 = e.grant r := by
  unfold handle
  split
  case isTrue hinserting =>
    rw [hinserting]
    cases input with
    | nil => exact ⟨.turn false, .leave, rfl⟩
    | cons c input => exact ⟨.append (c :: input), .append (List.cons_ne_nil c input), rfl⟩
  case isFalse hcommanding =>
    rw [Bool.not_eq_true] at hcommanding
    rw [hcommanding]
    obtain ⟨r, hasks, hgrant⟩ := command_grants e input s
    refine ⟨r, hasks, ?_⟩
    rw [← hgrant]
    generalize e.command input s = result
    obtain ⟨f, t, status⟩ := result
    cases status <;> rfl

/-! ## The list of lines -/

/-- What the user thinks of: the lines, and whether the next input is one of them. -/
structure Buffer where
  lines : List (List Char)
  inserting : Bool

/-- The list with a request granted, without a cursor. -/
def Buffer.grant (b : Buffer) : Request → Buffer
  | .nothing => b
  | .turn inserting => { b with inserting }
  | .append line => { b with lines := b.lines ++ [line] }
  | .remove n => { b with lines := b.lines.eraseIdx (n - 1) }

/-- The list after inputs one after another. -/
inductive Buffer.Becomes : Buffer → List (List Char) → Buffer → Prop
  | done (b : Buffer) : Becomes b [] b
  | input {b c : Buffer} {input : List Char} {rest : List (List Char)} {r : Request}
    (hasks : Asks b.lines.length b.inserting input r) (hrest : Becomes (b.grant r) rest c) :
    Becomes b (input :: rest) c

theorem Buffer.Becomes.unique {b c d : Buffer} {inputs : List (List Char)}
    (hc : b.Becomes inputs c) (hd : b.Becomes inputs d) : c = d := by
  induction hc with
  | done =>
    cases hd
    rfl
  | input hasks _ ih =>
    cases hd with
    | input hasks' hrest' =>
      obtain rfl := hasks.unique hasks'
      exact ih hrest'

def buffer (e : LineEditor) : Buffer :=
  ⟨e.lines, e.inserting⟩

/-! ## The cursor -/

/-- The next line goes behind the last one. -/
def AtEnd (e : LineEditor) : Prop :=
  e.cursor = e.lines.length

theorem lines_insertLine (h : e.AtEnd) (line : List Char) :
    (e.insertLine line).lines = e.lines ++ [line] := by
  rw [AtEnd] at h
  simp only [insertLine, h, List.take_length, List.drop_length]

theorem buffer_grant (h : e.AtEnd) (r : Request) : (e.grant r).buffer = e.buffer.grant r := by
  cases r with
  | append line => exact congrArg (Buffer.mk · e.inserting) (lines_insertLine h line)
  | nothing | turn | remove => rfl

theorem AtEnd.grant (h : e.AtEnd) {inserting : Bool} {r : Request}
    (hasks : Asks e.lines.length inserting input r) : (e.grant r).AtEnd := by
  cases hasks with
  | append hsome =>
    rw [AtEnd, LineEditor.grant, lines_insertLine h, List.length_append, List.length_singleton]
    exact congrArg (· + 1) h
  | @remove _ n hdeletes hfirst hlast =>
    have hindex : n - 1 < e.lines.length := by omega
    rw [AtEnd] at h
    simp only [AtEnd, LineEditor.grant, deleteLine, h, if_pos hlast,
      List.length_eraseIdx_of_lt hindex]
  | leave | enter | nothing => exact h

/-- Whatever is typed, the next line goes behind the last one. -/
theorem AtEnd.handle (h : e.AtEnd) (input : List Char) (s : Station) :
    (e.handle input s).1.AtEnd := by
  obtain ⟨r, hasks, hgrant⟩ := handle_grants e input s
  rw [hgrant]
  exact h.grant hasks

/-! ## Sessions with the editor -/

/-- The editor after inputs one after another, each at a station of its own. -/
def handleAll (e : LineEditor) : List (List Char × Station) → LineEditor
  | [] => e
  | (input, s) :: rest => (e.handle input s).1.handleAll rest

theorem AtEnd.handleAll (h : e.AtEnd) (inputs : List (List Char × Station)) :
    (e.handleAll inputs).AtEnd := by
  induction inputs generalizing e with
  | nil => exact h
  | cons first rest ih => exact ih (h.handle first.1 first.2)

theorem becomes_handleAll (h : e.AtEnd) (inputs : List (List Char × Station)) :
    e.buffer.Becomes (inputs.map Prod.fst) (e.handleAll inputs).buffer := by
  induction inputs generalizing e with
  | nil => exact .done e.buffer
  | cons first rest ih =>
    obtain ⟨input, s⟩ := first
    obtain ⟨r, hasks, hgrant⟩ := handle_grants e input s
    refine .input hasks ?_
    rw [← buffer_grant h, ← hgrant]
    exact ih (h.handle input s)

/-- From the opening of a file on, and whatever is typed, the cursor is behind the last line, so a
line can be put in there, and what is taken out lies in front of it. The lines are those of the
file with the lines typed in insert mode behind them and without those that were deleted. -/
theorem buffer_follows_list (drive : Nat) (fileName : String) (s : Station)
    (inputs : List (List Char × Station)) :
    let found := ((s.disk.file? drive fileName).map TextFile.lines).getD []
    let e := (start drive fileName s).1.handleAll inputs
    e.cursor = e.lines.length ∧
      (∀ input t, Checked.handle e input t = some (e.handle input t)) ∧
      ∀ b, Buffer.Becomes ⟨found, false⟩ (inputs.map Prod.fst) b ↔ b = e.buffer := by
  intro found e
  have hstart : (start drive fileName s).1.AtEnd := rfl
  have hend : e.AtEnd := hstart.handleAll inputs
  have hfound : (start drive fileName s).1.buffer = ⟨found, false⟩ :=
    congrArg (Buffer.mk · false) (lines_start drive fileName s)
  have hbecomes : Buffer.Becomes ⟨found, false⟩ (inputs.map Prod.fst) e.buffer :=
    hfound ▸ becomes_handleAll hstart inputs
  refine ⟨hend, Checked.handle_eq (Nat.le_of_eq hend), fun b => ⟨fun hb => ?_, ?_⟩⟩
  · exact hb.unique hbecomes
  · rintro rfl
    exact hbecomes

/-- A number without a line deletes nothing, and what looks like a command is a line in insert
mode. -/
example :
    let s := Station.ofDrives [.memory (.ofList [("A.TXT", #[0x61, 0x0A, 0x62, 0x0A, 0x63])])]
    let inputs := ["D 2", " d+9", "I", "D 1", "", "D 1"].map fun input => (input.toList, s)
    ((start 0 "A.TXT" s).1.handleAll inputs).lines = [['c'], ['D', ' ', '1']] := by
  decide +kernel

end Cpm80.LineEditor
