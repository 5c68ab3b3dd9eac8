import Cpm80.Proofs.DiskInvariants

/-!
# Sessions that go on

A session ends when the user asks for it at the command line. It would also end if the letter of
a drive had to be shown that has none, or if a file had to be found without a drive; but with one
to sixteen drives, of which one is the current drive, neither can happen, and whatever is done
with the session these drives stay. In the editor and in BASIC the words that end a session at the
command line do not end it.
-/
namespace Cpm80

/-! ## Drives -/

namespace DiskSystem

/-- There are at most sixteen drives, and one of them is the current drive. -/
structure Equipped (d : DiskSystem) : Prop where
  current : d.current < d.drives.length
  atMost : d.drives.length ≤ 16

theorem invariant_equipped : Invariant Equipped where
  operate := by
    intro d index drive h _ operations
    have hlength : (d.setDrive index (drive.after operations)).drives.length =
        d.drives.length := List.length_set
    exact ⟨hlength ▸ h.current, hlength ▸ h.atMost⟩
  select h hlt := ⟨hlt, h.atMost⟩
  reset h := ⟨Nat.zero_lt_of_lt h.current, h.atMost⟩
  note h _ _ _ := ⟨h.current, h.atMost⟩

variable {d : DiskSystem}

theorem Equipped.drive? (h : d.Equipped) : ∃ drive, d.drive? d.current = some drive :=
  ⟨_, List.getElem?_eq_getElem h.current⟩

end DiskSystem

variable {s : Station}

/-! ## The command line -/

namespace CommandLine

open DiskSystem

variable {d : DiskSystem}

theorem exists_driveLetter {index : Nat} (h : index < 16) :
    ∃ letter, driveLetter? index = some letter := by
  refine ⟨Char.ofNat (65 + index % 256), ?_⟩
  have hcode : 65 + index % 256 < 256 := by omega
  rw [driveLetter?]
  exact if_pos hcode

theorem exists_prompt (h : d.Equipped) : ∃ prompt, prompt? d = some prompt := by
  obtain ⟨letter, hletter⟩ := exists_driveLetter (Nat.lt_of_lt_of_le h.current h.atMost)
  exact ⟨_, by rw [prompt?, hletter, Option.map_some]⟩

/-- A file argument designates a drive that there is. -/
theorem lt_of_fileArgument? (h : d.Equipped) {argument : List Char} {drive : Nat} {name : String}
    (hargument : fileArgument? d argument = some (drive, name)) : drive < d.drives.length := by
  unfold fileArgument? at hargument
  dsimp only at hargument
  split at hargument
  case h_2 =>
    cases hargument
    exact h.current
  case h_1 =>
    split at hargument
    case isFalse =>
      cases hargument
      exact h.current
    case isTrue =>
      split at hargument
      case isFalse => cases hargument
      case isTrue hdrive =>
        cases hargument
        exact hdrive.2

/-- The words that end a session. -/
def isExit (line : List Char) : Bool :=
  let word := (Text.splitWord (Text.trim line)).1
  String.ofList (Text.upper word) ∈ ["EXIT", "QUIT"]

theorem ofWord_eq_exit_iff (word : List Char) :
    Command.ofWord word = .exit ↔ String.ofList word ∈ ["EXIT", "QUIT"] := by
  unfold Command.ofWord
  split
  case h_19 =>
    have hother : String.ofList word ∉ ["EXIT", "QUIT"] := by
      rw [List.mem_cons, List.mem_singleton, not_or]
      constructor <;> assumption
    apply iff_of_false _ hother
    split
    case h_1 => split <;> simp
    case h_2 => simp
  -- the other words are those of the table
  all_goals simp [*]

theorem listDirectory_outcome (h : s.Keeps Equipped) (argument : List Char) :
    (listDirectory argument s).2 = .done := by
  unfold listDirectory
  split
  case h_1 => rfl
  case h_2 drive pattern hargument =>
    split
    case h_1 => rfl
    case h_2 =>
      have hlt := lt_of_fileArgument? h hargument
      obtain ⟨letter, hletter⟩ := exists_driveLetter (Nat.lt_of_lt_of_le hlt h.atMost)
      rw [hletter]

theorem edit_outcome_ne (argument : List Char) (s : Station) :
    (edit argument s).2 ≠ .noLetter ∧ (edit argument s).2 ≠ .exit := by
  unfold edit
  dsimp only
  split
  case h_1 => simp
  case h_2 => split <;> simp

theorem loadProgram_outcome_ne (word tail : List Char) (s : Station) :
    (loadProgram word tail s).2 ≠ .noLetter ∧ (loadProgram word tail s).2 ≠ .exit := by
  unfold loadProgram
  split
  case h_1 => simp
  case h_2 =>
    dsimp only
    split <;> simp

theorem perform_outcome (h : s.Keeps Equipped) (command : Command) (tail : List Char) :
    (perform command tail s).2 ≠ .noLetter ∧
      ((perform command tail s).2 = .exit ↔ command = .exit) := by
  cases command with
  | directory =>
    have hdone := listDirectory_outcome h tail
    simp [perform, hdone]
  | edit =>
    obtain ⟨hletter, hexit⟩ := edit_outcome_ne tail s
    simpa [perform, hexit] using hletter
  | program word =>
    obtain ⟨hletter, hexit⟩ := loadProgram_outcome_ne word tail s
    simpa [perform, hexit] using hletter
  | type | erase | rename | assemble | save | basic | exit | help | switchDrive =>
    simp [perform]

/-- With the drives in order, a line ends the session if and only if it asks for it. -/
theorem execute_outcome (h : s.Keeps Equipped) (line : List Char) :
    (execute line s).2 ≠ .noLetter ∧ ((execute line s).2 = .exit ↔ isExit line = true) := by
  unfold execute isExit
  dsimp only
  rw [decide_eq_true_iff, ← ofWord_eq_exit_iff]
  split
  case isTrue hempty =>
    have hword : (Text.splitWord (Text.trim line)).1 = [] := List.isEmpty_iff.mp hempty
    have hother : Command.ofWord (Text.upper []) ≠ .exit := by decide
    simp [hword, hother]
  case isFalse => exact perform_outcome h _ _

end CommandLine

/-! ## BASIC -/

namespace Basic.Interpreter

open DiskSystem

theorem resume_status_ne (budget : Nat) (i : Interpreter) (r : Run) (c : Console) :
    (resume budget i r c).2.2 ≠ .noDrive := by
  induction budget generalizing i r c with
  | zero =>
    unfold resume
    split <;> simp [endRun]
  | succ budget ih =>
    unfold resume
    split
    case h_1 => simp [endRun]
    case h_2 =>
      dsimp only
      split
      case h_1 | h_2 => exact ih _ _ _
      case h_3 | h_4 | h_5 => simp [endRun]

theorem run_status_ne (budget : Nat) (i : Interpreter) (c : Console) :
    (run budget i c).2.2 ≠ .noDrive := by
  unfold run
  split
  case isTrue => simp
  case isFalse => exact resume_status_ne _ _ _ _

theorem takeReply_status_ne (budget : Nat) (i : Interpreter) (r : Run) (name : String)
    (line : List Char) (c : Console) : (takeReply budget i r name line c).2.2 ≠ .noDrive := by
  unfold takeReply
  split
  case h_1 => simp
  case h_2 => exact resume_status_ne _ _ _ _

theorem save_status_ne (h : s.Keeps Equipped) (i : Interpreter) (argument : List Char) :
    (i.save argument s).2.2 ≠ .noDrive := by
  obtain ⟨m, d, c, u⟩ := s
  obtain ⟨drive, hdrive⟩ := Equipped.drive? h
  unfold save saveFile
  split
  case isTrue => simp [asking]
  case isFalse =>
    simp only [hdrive]
    split
    case h_1 | h_2 => simp [asking]
    case h_3 hnone => cases hnone

theorem load_status_ne (h : s.Keeps Equipped) (i : Interpreter) (argument : List Char) :
    (i.load argument s).2.2 ≠ .noDrive := by
  obtain ⟨drive, hdrive⟩ := Equipped.drive? h
  unfold load
  simp only [hdrive]
  split <;> simp [asking]

theorem perform_status_ne (h : s.Keeps Equipped) (budget : Nat) (command : Command)
    (argument : List Char) (i : Interpreter) :
    (perform budget command argument i s).2.2 ≠ .noDrive := by
  cases command with
  | run => exact run_status_ne budget i s.console
  | save => exact save_status_ne h i argument
  | load => exact load_status_ne h i argument
  | new | list | clear | help | quit => simp [perform, asking]

/-- With the drives in order, BASIC is never without one. -/
theorem handle_status_ne (h : s.Keeps Equipped) (budget : Nat) (i : Interpreter)
    (line : List Char) : (i.handle budget line s).2.2 ≠ .noDrive := by
  unfold handle
  split
  case h_2 r name hwaiting => exact takeReply_status_ne budget i r name line s.console
  case h_1 =>
    unfold obey
    dsimp only
    split
    case isTrue => split <;> simp [asking]
    case isFalse =>
      split
      case isTrue => simp [asking]
      case isFalse =>
        split
        case h_2 => simp [asking]
        case h_1 command hcommand => exact perform_status_ne h budget command _ i

end Basic.Interpreter

/-! ## Sessions -/

namespace Session

open DiskSystem

variable {s : Session} {line : List Char} {budget : Nat}

/-- The session has its drives in order and has not ended. -/
structure Open (s : Session) : Prop where
  equipped : s.Keeps Equipped
  lasts : s.hasExited = false

/-- The session is at the command line, and the line is one that ends it there. -/
def endsBy (line : List Char) (s : Session) : Bool :=
  s.isAtCommandLine && CommandLine.isExit line

/-- A session that shows its prompt with the drives in order stays as it is, but for the screen. -/
theorem Open.printPrompt (h : s.Open) : s.printPrompt.Open := by
  refine ⟨keeps_printPrompt h.equipped, ?_⟩
  obtain ⟨prompt, hprompt⟩ := CommandLine.exists_prompt h.equipped
  have hlasts := h.lasts
  obtain ⟨⟨p, st⟩, n, i, w, o, m⟩ := s
  simp only [Session.printPrompt, hprompt]
  exact hlasts

theorem Open.settlePrompt (h : s.Open) (halted : Bool) : (s.settlePrompt halted).Open := by
  unfold Session.settlePrompt
  split
  case isTrue =>
    apply Open.printPrompt
    exact ⟨Station.Keeps.onConsole h.equipped _, h.lasts⟩
  case isFalse => exact h

theorem Open.resume (h : s.Open) (budget : Nat) : (s.resume budget).1.Open := by
  rw [resume_fst]
  apply Open.settlePrompt
  exact ⟨keeps_ranFor invariant_equipped h.equipped budget, h.lasts⟩

theorem Open.start (h : s.Open) (entry : UInt16) : (s.start entry).Open := by
  refine ⟨keeps_start h.equipped entry, ?_⟩
  obtain ⟨⟨p, m, d, c, u⟩, n, i, w, o, mode⟩ := s
  exact h.lasts

theorem Open.run (h : s.Open) (entry : Option UInt16) (budget : Nat) :
    (s.run entry budget).1.Open := by
  cases entry with
  | none => exact h.resume budget
  | some entry => exact (h.start entry).resume budget

theorem hasExited_reset (s : Session) : s.reset.hasExited = s.hasExited := by
  obtain ⟨c, n, i, w, o, m⟩ := s
  cases m <;> rfl

theorem hasExited_step (s : Session) : s.step.1.hasExited = s.hasExited := by
  obtain ⟨c, n, i, w, o, m⟩ := s
  unfold step
  dsimp only
  split <;> rfl

theorem hasExited_load (s : Session) (a : UInt16) (bytes : List UInt8) :
    (s.load a bytes).1.hasExited = s.hasExited := by
  obtain ⟨⟨p, m, d, c, u⟩, n, i, w, o, mode⟩ := s
  unfold load
  dsimp only
  split <;> rfl

theorem hasExited_assemble (s : Session) (source : List Char) (origin : UInt16) :
    (s.assemble source origin).1.hasExited = s.hasExited := by
  unfold assemble
  dsimp only
  generalize Assembly.ofText source origin = a
  have hloaded := hasExited_load (s.onStation fun st => st.onUsage fun u => u.addAssembly a.isOk)
    a.origin a.image.toList
  split
  case isTrue =>
    split
    case h_1 hl | h_2 hl =>
      rw [hl] at hloaded
      exact hloaded
  case isFalse => rfl

theorem Open.follow (h : s.Open) {outcome : CommandOutcome} (hletter : outcome ≠ .noLetter)
    (hexit : outcome ≠ .exit) (budget : Nat) : (s.follow outcome budget).1.Open := by
  cases outcome with
  | done => exact h.printPrompt
  | run entry =>
    have hstarted : Open { s.start entry with owesPrompt := true } :=
      ⟨(h.start entry).equipped, (h.start entry).lasts⟩
    exact hstarted.resume budget
  | edit drive name =>
    obtain ⟨⟨p, st⟩, n, i, w, o, m⟩ := s
    exact ⟨LineEditor.keeps_start h.equipped drive name, rfl⟩
  | basic =>
    obtain ⟨⟨p, st⟩, n, i, w, o, m⟩ := s
    exact ⟨Basic.Interpreter.keeps_start h.equipped, rfl⟩
  | noLetter => exact absurd rfl hletter
  | exit => exact absurd rfl hexit

/-- A line that does not end the session leaves it open. -/
theorem Open.command (h : s.Open) (hends : s.endsBy line = false) (budget : Nat) :
    (s.command line budget).1.Open := by
  obtain ⟨⟨p, st⟩, n, i, w, o, m⟩ := s
  cases m with
  | exited why => exact h
  | commandLine =>
    obtain ⟨hletter, hexit⟩ := CommandLine.execute_outcome h.equipped line
    have hobeyed : Open ⟨⟨p, (CommandLine.execute line st).1⟩, n, i, w, o, .commandLine⟩ :=
      ⟨CommandLine.keeps_execute invariant_equipped h.equipped line, rfl⟩
    have hstays : (CommandLine.execute line st).2 ≠ .exit := by
      intro heq
      have hasks : CommandLine.isExit line = false := hends
      rw [hexit.mp heq] at hasks
      cases hasks
    exact hobeyed.follow hletter hstays budget
  | editor e =>
    have hhandled := LineEditor.keeps_handle invariant_equipped h.equipped e line
    simp only [Session.command]
    split
    case h_1 e' st' hresult =>
      rw [hresult] at hhandled
      exact ⟨hhandled, rfl⟩
    case h_2 e' st' hresult =>
      rw [hresult] at hhandled
      have hleft : Open ⟨⟨p, st'⟩, n, i, w, o, .commandLine⟩ := ⟨hhandled, rfl⟩
      exact hleft.printPrompt
  | basic b =>
    have hhandled := Basic.Interpreter.keeps_handle invariant_equipped h.equipped budget b line
    have hdrive := Basic.Interpreter.handle_status_ne h.equipped budget b line
    simp only [Session.command]
    split
    case h_1 b' st' hresult =>
      rw [hresult] at hhandled
      have hleft : Open ⟨⟨p, st'⟩, n, i, w, o, .commandLine⟩ := ⟨hhandled, rfl⟩
      exact hleft.printPrompt
    case h_2 b' st' hresult =>
      rw [hresult] at hdrive
      exact absurd rfl hdrive
    case h_3 b' st' status _ _ hresult =>
      rw [hresult] at hhandled
      exact ⟨hhandled, rfl⟩

/-- A line that ends the session does so. -/
theorem hasExited_command (h : s.Open) (hends : s.endsBy line = true) (budget : Nat) :
    (s.command line budget).1.hasExited = true := by
  obtain ⟨⟨p, st⟩, n, i, w, o, m⟩ := s
  cases m with
  | commandLine =>
    have hexit := (CommandLine.execute_outcome h.equipped line).2.mpr hends
    simp only [Session.command, hexit]
    rfl
  | editor | basic | exited => cases hends

/-- The console takes a line for the editor, for BASIC or for the program, never as a command
that ends the session. -/
theorem Open.enterLine (h : s.Open) (line : List Char) (budget : Nat) :
    (s.enterLine line budget).1.Open := by
  have htyped : (s.typeLine line).Open := ⟨h.equipped, h.lasts⟩
  unfold Session.enterLine
  split
  case h_1 hmode | h_2 hmode =>
    apply h.command
    simp [endsBy, isAtCommandLine, hmode]
  case h_3 => exact h
  case h_4 =>
    dsimp only
    split
    case isTrue => exact htyped.resume budget
    case isFalse => exact htyped

/-- The operation is a command by which the session ends. -/
def Operation.ends (s : Session) : Operation → Bool
  | command line _ => s.endsBy line
  | _ => false

theorem Open.perform (h : s.Open) {o : Operation} (hdisk : o.changesDisk = false)
    (hends : o.ends s = false) : (s.perform o).Open := by
  have hkept := keeps_perform invariant_equipped h.equipped hdisk
  cases o with
  | reset => exact ⟨hkept, (hasExited_reset s).trans h.lasts⟩
  | load a bytes => exact ⟨hkept, (hasExited_load s a bytes).trans h.lasts⟩
  | assemble source origin => exact ⟨hkept, (hasExited_assemble s source origin).trans h.lasts⟩
  | run entry budget => exact h.run entry budget
  | step => exact ⟨hkept, (hasExited_step s).trans h.lasts⟩
  | enterLine line budget => exact h.enterLine line budget
  | command line budget => exact h.command hends budget
  | type | typeLine | takeOutput | takeUsage | setRegisters => exact ⟨hkept, h.lasts⟩
  | changeDisk f => cases hdisk

theorem open_ofDrives {drives : List Drive} (hne : drives ≠ []) (hatMost : drives.length ≤ 16) :
    (ofDrives drives).Open := by
  have hblank : Open { computer := .ofDrives drives } :=
    ⟨⟨List.length_pos_iff.mpr hne, hatMost⟩, rfl⟩
  exact hblank.printPrompt

end Session

end Cpm80
