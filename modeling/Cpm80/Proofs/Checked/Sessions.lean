import Cpm80.Proofs.Checked.Calls
import Cpm80.Proofs.Checked.Editing
import Cpm80.Proofs.Checked.Interpreting

/-!
# Sessions, with every access checked

All that is done with a session, with every access checked that is made on the way: by the command
line, the assembler, the editor and BASIC, by the system calls of programs, and by the prompt, which
shows the letter of the current drive. A session that is created has from one to sixteen drives.
From then on the current drive stays one of them and the cursor of the editor within its lines, so
nothing that is done with the session fails a check.
-/
namespace Cpm80.Session

open Cpm80.Checked DiskSystem

namespace Checked

def printPrompt : Session → Option Session
  | ⟨⟨p, st⟩, n, i, w, o, m⟩ => do
    let prompt ← CommandLine.Checked.prompt st.disk
    some ⟨⟨p, st.print prompt⟩, n, i, w, o, m⟩

/-! ## Programs -/

def load (a : UInt16) (bytes : List UInt8) : Session → Option (Session × Option OutOfBounds)
  | ⟨⟨p, m, d, c, u⟩, n, i, w, o, mode⟩ => do
    match ← Memory.Checked.load m a bytes with
    | .ok m => some (⟨⟨p, m, d, c, u⟩, n, i, w, o, mode⟩, none)
    | .error e => some (⟨⟨p, m, d, c, u⟩, n, i, w, o, mode⟩, some e)

def assemble (source : List Char) (origin : UInt16) (s : Session) :
    Option (Session × Except OutOfBounds Assembly) := do
  let a ← Assembler.Checked.ofText source origin
  let s := s.onStation fun s => s.onUsage fun u => u.addAssembly a.isOk
  if a.isOk then do
    match ← load a.origin a.image.toList s with
    | (s, none) => some (s, .ok a)
    | (s, some e) => some (s, .error e)
  else some (s, .ok a)

def settlePrompt (halted : Bool) (s : Session) : Option Session :=
  if halted ∧ s.owesPrompt then
    printPrompt ({ s with owesPrompt := false }.onConsole Console.endLine)
  else some s

def resume (budget : Nat) : Session → Option (Session × RunReport)
  | ⟨c, n, i, _, o, m⟩ => do
    let (⟨p, s⟩, t, waiting) ← Computer.Checked.run budget c {}
    let s := s.onUsage fun u => u.addRun t.instructions t.cycles
    let outcome := if p.halted then RunOutcome.halted
      else if waiting then .awaitingInput
      else .cycleLimit
    let s ← settlePrompt p.halted ⟨⟨p, s⟩, n + t.cycles, i + t.instructions, waiting, o, m⟩
    some (s, ⟨t.cycles, t.instructions, p.halted, outcome⟩)

def run (entry : Option UInt16) (budget : Nat) (s : Session) : Option (Session × RunReport) :=
  match entry with
  | some entry => resume budget (s.start entry)
  | none => resume budget s

def step : Session → Option (Session × Nat)
  | ⟨c, n, i, w, o, m⟩ => do
    match ← Computer.Checked.advance c with
    | (c, .executed cost) => some (⟨c, n + cost, i + 1, false, o, m⟩, cost)
    | (c, .waiting) => some (⟨c, n, i, true, o, m⟩, 0)
    | (c, .halted) => some (⟨c, n, i, w, o, m⟩, 0)

/-! ## The user -/

/-- Without a letter for a drive there is nothing to show. -/
def follow (outcome : CommandOutcome) (budget : Nat) (s : Session) :
    Option (Session × Option RunReport) :=
  match outcome with
  | .done => do
    let s ← printPrompt s
    some (s, none)
  | .noLetter => none
  | .run entry => do
    let (s, report) ← resume budget { s.start entry with owesPrompt := true }
    some (s, some report)
  | .edit _ _ | .basic | .exit => some (s.follow outcome budget)

/-- Without a current drive BASIC cannot save or load. -/
def command (line : List Char) (budget : Nat) : Session → Option (Session × Option RunReport)
  | ⟨⟨p, st⟩, n, i, w, o, .commandLine⟩ => do
    let (st, outcome) ← CommandLine.Checked.execute line st
    follow outcome budget ⟨⟨p, st⟩, n, i, w, o, .commandLine⟩
  | ⟨⟨p, st⟩, n, i, w, o, .editor e⟩ => do
    match ← LineEditor.Checked.handle e line st with
    | (e, st, .editing) => some (⟨⟨p, st⟩, n, i, w, o, .editor e⟩, none)
    | (_, st, .quit) => do
      let s ← printPrompt ⟨⟨p, st⟩, n, i, w, o, .commandLine⟩
      some (s, none)
  | ⟨⟨p, st⟩, n, i, w, o, .basic b⟩ => do
    match ← Basic.Interpreter.Checked.handle budget b line st with
    | (_, st, .quit) => do
      let s ← printPrompt ⟨⟨p, st⟩, n, i, w, o, .commandLine⟩
      some (s, none)
    | (_, _, .noDrive) => none
    | (b, st, _) => some (⟨⟨p, st⟩, n, i, w, o, .basic b⟩, none)
  | ⟨c, n, i, w, o, .exited why⟩ => some (⟨c, n, i, w, o, .exited why⟩, none)

def enterLine (line : List Char) (budget : Nat) (s : Session) :
    Option (Session × Option RunReport) :=
  match s.mode with
  | .editor _ | .basic _ => command line budget s
  | .exited _ => some (s, none)
  | .commandLine =>
    let s := s.typeLine line
    if s.awaitingInput then do
      let (s, report) ← resume budget s
      some (s, some report)
    else some (s, none)

def perform (s : Session) : Operation → Option Session
  | .load a bytes => (load a bytes s).map Prod.fst
  | .assemble source origin => (assemble source origin s).map Prod.fst
  | .run entry budget => (run entry budget s).map Prod.fst
  | .step => (step s).map Prod.fst
  | .enterLine line budget => (enterLine line budget s).map Prod.fst
  | .command line budget => (command line budget s).map Prod.fst
  -- the others read no text and look nothing up
  | .reset => some s.reset
  | .type bytes => some (s.type bytes)
  | .typeLine line => some (s.typeLine line)
  | .takeOutput => some s.takeOutput.2
  | .takeUsage => some s.takeUsage.2
  | .changeDisk f => some (s.perform (.changeDisk f))
  | .setRegisters p => some (s.perform (.setRegisters p))

/-! ## What is done -/

variable {s : Session}

theorem printPrompt_eq (h : s.Keeps Equipped) : printPrompt s = some s.printPrompt := by
  obtain ⟨⟨p, st⟩, n, i, w, o, m⟩ := s
  obtain ⟨prompt, hprompt⟩ := CommandLine.exists_prompt h
  have hchecked : CommandLine.Checked.prompt st.disk = some prompt :=
    (CommandLine.Checked.prompt_eq h).trans hprompt
  simp only [printPrompt, Session.printPrompt, hchecked, hprompt, Option.bind_eq_bind,
    Option.bind_some]

theorem load_eq (a : UInt16) (bytes : List UInt8) (s : Session) :
    load a bytes s = some (s.load a bytes) := by
  obtain ⟨⟨p, m, d, c, u⟩, n, i, w, o, mode⟩ := s
  rw [load, Memory.Checked.load_eq, Option.bind_eq_bind, Option.bind_some, Session.load]
  cases m.load a bytes <;> rfl

theorem assemble_eq {source : List Char} (h : Assembly.IsCountable source)
    (origin : UInt16) (s : Session) :
    assemble source origin s = some (s.assemble source origin) := by
  rw [assemble, Assembler.Checked.ofText_eq h, Option.bind_eq_bind, Option.bind_some,
    Session.assemble]
  dsimp only
  generalize Assembly.ofText source origin = a
  split
  case isFalse => rfl
  case isTrue =>
    rw [load_eq, Option.bind_eq_bind, Option.bind_some]
    rcases (s.onStation fun s => s.onUsage fun u => u.addAssembly a.isOk).load a.origin
      a.image.toList with ⟨s, _ | e⟩ <;> rfl

theorem settlePrompt_eq (h : s.Keeps Equipped) (halted : Bool) :
    settlePrompt halted s = some (s.settlePrompt halted) := by
  rw [settlePrompt, Session.settlePrompt]
  split
  case isTrue => exact printPrompt_eq (Station.Keeps.onConsole h _)
  case isFalse => rfl

theorem resume_eq (h : s.Keeps Equipped) (budget : Nat) :
    resume budget s = some (s.resume budget) := by
  obtain ⟨c, n, i, w, o, m⟩ := s
  have hran : (c.run budget {}).1.station.Keeps Equipped :=
    Computer.keeps_stop invariant_equipped h
  rw [resume, Computer.Checked.run_eq, Option.bind_eq_bind, Option.bind_some, Session.resume]
  rcases hrun : c.run budget {} with ⟨⟨p, st⟩, t, waiting⟩
  rw [hrun] at hran
  have hended : Keeps Equipped ⟨⟨p, st.onUsage fun u => u.addRun t.instructions t.cycles⟩,
      n + t.cycles, i + t.instructions, waiting, o, m⟩ := Station.Keeps.onUsage hran _
  dsimp only
  rw [settlePrompt_eq hended]
  rfl

theorem run_eq (h : s.Keeps Equipped) (entry : Option UInt16) (budget : Nat) :
    run entry budget s = some (s.run entry budget) := by
  cases entry with
  | none => exact resume_eq h budget
  | some entry => exact resume_eq (keeps_start h entry) budget

theorem step_eq (s : Session) : step s = some s.step := by
  obtain ⟨c, n, i, w, o, m⟩ := s
  rw [step, Computer.Checked.advance_eq, Option.bind_eq_bind, Option.bind_some, Session.step]
  rcases c.advance with ⟨c, cost | _ | _⟩ <;> rfl

theorem follow_eq (h : s.Keeps Equipped) {outcome : CommandOutcome} (hletter : outcome ≠ .noLetter)
    (budget : Nat) : follow outcome budget s = some (s.follow outcome budget) := by
  cases outcome with
  | done =>
    rw [follow, printPrompt_eq h]
    rfl
  | noLetter => exact absurd rfl hletter
  | run entry =>
    have hstarted : Keeps Equipped { s.start entry with owesPrompt := true } := keeps_start h entry
    rw [follow, resume_eq hstarted]
    rfl
  | edit | basic | exit => rfl

/-- The cursor of the editor, if it is open, stands within its lines. -/
def EditsInside (s : Session) : Prop :=
  ∀ e, s.mode = .editor e → LineEditor.Checked.Inside e

theorem command_eq (h : s.Keeps Equipped) (hinside : EditsInside s) {line : List Char}
    (hcountable : s.isAtCommandLine = true → ∀ text,
      CommandLine.Checked.assembledBy? line s.computer.station.disk = some text →
        Assembly.IsCountable text)
    (budget : Nat) : command line budget s = some (s.command line budget) := by
  obtain ⟨⟨p, st⟩, n, i, w, o, m⟩ := s
  cases m with
  | exited why => rfl
  | commandLine =>
    have hletter := (CommandLine.execute_outcome h line).1
    have hobeyed : Keeps Equipped
        ⟨⟨p, (CommandLine.execute line st).1⟩, n, i, w, o, .commandLine⟩ :=
      CommandLine.keeps_execute invariant_equipped h line
    rw [command, CommandLine.Checked.execute_eq h (hcountable rfl), Option.bind_eq_bind,
      Option.bind_some]
    exact follow_eq hobeyed hletter budget
  | editor e =>
    have hhandled := LineEditor.keeps_handle invariant_equipped h e line
    rw [command, LineEditor.Checked.handle_eq (hinside e rfl), Option.bind_eq_bind,
      Option.bind_some, Session.command]
    rcases hresult : e.handle line st with ⟨e', st', _ | _⟩
    · rfl
    · rw [hresult] at hhandled
      have hleft : Keeps Equipped ⟨⟨p, st'⟩, n, i, w, o, .commandLine⟩ := hhandled
      dsimp only
      rw [printPrompt_eq hleft]
      rfl
  | basic b =>
    have hhandled := Basic.Interpreter.keeps_handle invariant_equipped h budget b line
    have hdrive := Basic.Interpreter.handle_status_ne h budget b line
    rw [command, Basic.Interpreter.Checked.handle_eq h, Option.bind_eq_bind, Option.bind_some,
      Session.command]
    rcases hresult : b.handle budget line st with ⟨b', st', status⟩
    rw [hresult] at hhandled hdrive
    cases status with
    | ready | awaitingInput => rfl
    | noDrive => exact absurd rfl hdrive
    | quit =>
      have hleft : Keeps Equipped ⟨⟨p, st'⟩, n, i, w, o, .commandLine⟩ := hhandled
      dsimp only
      rw [printPrompt_eq hleft]
      rfl

theorem enterLine_eq (h : s.Keeps Equipped) (hinside : EditsInside s) (line : List Char)
    (budget : Nat) : enterLine line budget s = some (s.enterLine line budget) := by
  rw [enterLine, Session.enterLine]
  cases hmode : s.mode with
  | editor e | basic b => exact command_eq h hinside (by simp [isAtCommandLine, hmode]) budget
  | exited why => rfl
  | commandLine =>
    have htyped : (s.typeLine line).Keeps Equipped := h
    dsimp only
    split
    case isTrue =>
      rw [resume_eq htyped]
      rfl
    case isFalse => rfl

/-! ## Every operation -/

namespace EditsInside

theorem of_mode {t : Session} (h : EditsInside s) (hmode : t.mode = s.mode) : EditsInside t :=
  fun e he => h e (hmode.symm.trans he)

/-- No editor is open. -/
theorem of_ne (h : ∀ e, s.mode ≠ .editor e) : EditsInside s :=
  fun e he => absurd he (h e)

theorem printPrompt (h : EditsInside s) : EditsInside s.printPrompt := by
  obtain ⟨⟨p, st⟩, n, i, w, o, m⟩ := s
  unfold Session.printPrompt
  dsimp only
  split
  · exact h.of_mode rfl
  · exact of_ne nofun

theorem settlePrompt (h : EditsInside s) (halted : Bool) : EditsInside (s.settlePrompt halted) := by
  unfold Session.settlePrompt
  split
  · exact printPrompt (h.of_mode rfl)
  · exact h

theorem resume (h : EditsInside s) (budget : Nat) : EditsInside (s.resume budget).1 := by
  have hran : EditsInside (s.ranFor budget) := h.of_mode rfl
  rw [resume_fst]
  exact hran.settlePrompt _

theorem start (h : EditsInside s) (entry : UInt16) : EditsInside (s.start entry) :=
  h.of_mode rfl

theorem run (h : EditsInside s) (entry : Option UInt16) (budget : Nat) :
    EditsInside (s.run entry budget).1 := by
  cases entry with
  | none => exact h.resume budget
  | some entry => exact (h.start entry).resume budget

theorem step (h : EditsInside s) : EditsInside s.step.1 := by
  obtain ⟨c, n, i, w, o, m⟩ := s
  unfold Session.step
  dsimp only
  split <;> exact h.of_mode rfl

theorem load (h : EditsInside s) (a : UInt16) (bytes : List UInt8) :
    EditsInside (s.load a bytes).1 := by
  obtain ⟨⟨p, m, d, c, u⟩, n, i, w, o, mode⟩ := s
  unfold Session.load
  dsimp only
  split <;> exact h.of_mode rfl

theorem assemble (h : EditsInside s) (source : List Char) (origin : UInt16) :
    EditsInside (s.assemble source origin).1 := by
  unfold Session.assemble
  dsimp only
  generalize Assembly.ofText source origin = a
  have hcounted : EditsInside (s.onStation fun st => st.onUsage fun u => u.addAssembly a.isOk) :=
    h.of_mode rfl
  have hloaded := hcounted.load a.origin a.image.toList
  split
  case isTrue =>
    split
    case h_1 hl | h_2 hl =>
      rw [hl] at hloaded
      exact hloaded
  case isFalse => exact hcounted

/-- A file is edited from its end on. -/
theorem follow (h : EditsInside s) (outcome : CommandOutcome) (budget : Nat) :
    EditsInside (s.follow outcome budget).1 := by
  cases outcome with
  | done => exact h.printPrompt
  | run entry =>
    have hstarted : EditsInside { s.start entry with owesPrompt := true } := h.of_mode rfl
    exact hstarted.resume budget
  | edit drive name =>
    rintro e ⟨⟩
    exact LineEditor.Checked.inside_start drive name _
  | noLetter | basic | exit => exact of_ne nofun

theorem command (h : EditsInside s) (line : List Char) (budget : Nat) :
    EditsInside (s.command line budget).1 := by
  obtain ⟨⟨p, st⟩, n, i, w, o, m⟩ := s
  cases m with
  | exited why => exact h
  | commandLine =>
    have hobeyed : EditsInside ⟨⟨p, (CommandLine.execute line st).1⟩, n, i, w, o, .commandLine⟩ :=
      of_ne (by simp)
    exact hobeyed.follow _ budget
  | editor e =>
    have hhandled := LineEditor.Checked.Inside.handle (h e rfl) line st
    simp only [Session.command]
    split
    case h_1 e' st' hresult =>
      rw [hresult] at hhandled
      rintro _ ⟨⟩
      exact hhandled
    case h_2 => exact printPrompt (of_ne (by simp))
  | basic b =>
    simp only [Session.command]
    split
    case h_1 => exact printPrompt (of_ne (by simp))
    case h_2 | h_3 => exact of_ne (by simp)

theorem enterLine (h : EditsInside s) (line : List Char) (budget : Nat) :
    EditsInside (s.enterLine line budget).1 := by
  have htyped : EditsInside (s.typeLine line) := h.of_mode rfl
  unfold Session.enterLine
  split
  case h_1 | h_2 => exact h.command line budget
  case h_3 => exact h
  case h_4 =>
    dsimp only
    split
    case isTrue => exact htyped.resume budget
    case isFalse => exact htyped

theorem reset (s : Session) : EditsInside s.reset := by
  obtain ⟨c, n, i, w, o, m⟩ := s
  cases m <;> exact of_ne nofun

theorem perform (h : EditsInside s) (o : Operation) : EditsInside (s.perform o) := by
  cases o with
  | reset => exact reset s
  | load a bytes => exact h.load a bytes
  | assemble source origin => exact h.assemble source origin
  | run entry budget => exact h.run entry budget
  | step => exact h.step
  | enterLine line budget => exact h.enterLine line budget
  | command line budget => exact h.command line budget
  | type | typeLine | takeOutput | takeUsage | changeDisk | setRegisters => exact h.of_mode rfl

end EditsInside

end Checked

open Checked

/-- The operation leaves the drives in order, in particular one that is done to them from
outside. -/
def Operation.IsOrderly : Operation → Prop
  | changeDisk f => ∀ d, d.Equipped → (f d).Equipped
  | _ => True

/-- What the operation assembles, if it assembles anything, has no string that is too long for the
counter of the assembler. -/
def Operation.IsCountable (s : Session) : Operation → Prop
  | assemble source _ => Assembly.IsCountable source
  | command line _ =>
    s.isAtCommandLine = true → ∀ text,
      CommandLine.Checked.assembledBy? line s.computer.station.disk = some text →
        Assembly.IsCountable text
  | _ => True

/-- Whatever is done to the files of a drive, the drives stay in order. -/
theorem isOrderly_operate (index : Nat) (operations : List Drive.Operation) :
    Operation.IsOrderly (.changeDisk fun d =>
      (d.drive? index).elim d fun drive => d.setDrive index (drive.after operations)) := by
  intro d h
  dsimp only
  cases hdrive : d.drive? index with
  | none => exact h
  | some drive => exact invariant_equipped.operate h hdrive operations

theorem keeps_equipped {s : Session} (h : s.Keeps Equipped) {o : Operation} (ho : o.IsOrderly) :
    (s.perform o).Keeps Equipped := by
  cases o with
  | changeDisk f => exact ho _ h
  | reset | load | assemble | run | step | type | typeLine | takeOutput | takeUsage | enterLine
  | command | setRegisters => exact keeps_perform invariant_equipped h rfl

theorem Checked.perform_eq {s : Session} (h : s.Keeps Equipped) (hinside : EditsInside s)
    {o : Operation} (hcountable : o.IsCountable s) : perform s o = some (s.perform o) := by
  cases o with
  | load a bytes =>
    rw [perform, load_eq]
    rfl
  | assemble source origin =>
    rw [perform, assemble_eq hcountable]
    rfl
  | run entry budget =>
    rw [perform, run_eq h]
    rfl
  | step =>
    rw [perform, step_eq]
    rfl
  | enterLine line budget =>
    rw [perform, enterLine_eq h hinside]
    rfl
  | command line budget =>
    rw [perform, command_eq h hinside hcountable]
    rfl
  | reset | type | typeLine | takeOutput | takeUsage | changeDisk | setRegisters => rfl

/-- The current drive and the cursor of the editor stay where they have to be. -/
theorem equipped_after {s : Session} (h : s.Keeps Equipped) (hinside : EditsInside s)
    {operations : List Operation} (horderly : ∀ o ∈ operations, o.IsOrderly) :
    (s.after operations).Keeps Equipped ∧ EditsInside (s.after operations) := by
  induction operations generalizing s with
  | nil => exact ⟨h, hinside⟩
  | cons o rest ih =>
    obtain ⟨ho, hrest⟩ := List.forall_mem_cons.mp horderly
    exact ih (keeps_equipped h ho) (hinside.perform o) hrest

/-- A session with one to sixteen drives always has a current drive, and nothing that is done with
it makes an access out of range, be it by the text of a command, of a line for the editor or for
BASIC, of a reply or of a source. Only what is assembled must not have a string that is too long for
the counter. -/
theorem perform_passes_checks {drives : List Drive} (hne : drives ≠ [])
    (hatMost : drives.length ≤ 16) {operations : List Operation}
    (horderly : ∀ o ∈ operations, o.IsOrderly) {o : Operation}
    (hcountable : o.IsCountable ((ofDrives drives).after operations)) :
    Checked.printPrompt { computer := .ofDrives drives } = some (ofDrives drives) ∧
      ((ofDrives drives).after operations).computer.station.disk.current <
        ((ofDrives drives).after operations).computer.station.disk.drives.length ∧
      Checked.perform ((ofDrives drives).after operations) o =
        some (((ofDrives drives).after operations).perform o) := by
  have hblank : Keeps Equipped { computer := .ofDrives drives } :=
    ⟨List.length_pos_iff.mpr hne, hatMost⟩
  have hinside : EditsInside { computer := .ofDrives drives } := .of_ne nofun
  obtain ⟨hafter, hedits⟩ :=
    equipped_after (keeps_printPrompt hblank) hinside.printPrompt horderly
  exact ⟨printPrompt_eq hblank, hafter.current, Checked.perform_eq hafter hedits hcountable⟩

/-- A file is edited while the drives are written to from outside. -/
def editedMeanwhile : List Operation :=
  [.command "ED é.TXT".toList 0, .command "é\"".toList 0,
    .changeDisk fun d =>
      (d.drive? 0).elim d fun drive => d.setDrive 0 (drive.after [.save "A.TXT" #[0xC3]])]

theorem perform_passes_checks_edited :
    (∀ o ∈ editedMeanwhile, o.IsOrderly) ∧
      Checked.perform ((ofDrives [.memory .empty]).after editedMeanwhile)
          (.assemble "é: DB 'é', 1".toList 0x0100) =
        some (((ofDrives [.memory .empty]).after editedMeanwhile).perform
          (.assemble "é: DB 'é', 1".toList 0x0100)) := by
  have horderly : ∀ o ∈ editedMeanwhile, o.IsOrderly :=
    List.forall_mem_cons.mpr ⟨trivial, List.forall_mem_cons.mpr ⟨trivial,
      List.forall_mem_singleton.mpr (isOrderly_operate 0 [.save "A.TXT" #[0xC3]])⟩⟩
  have hcountable : Operation.IsCountable
      ((ofDrives [.memory .empty]).after editedMeanwhile)
      (.assemble "é: DB 'é', 1".toList 0x0100) := by
    exact Assembler.Checked.isCountable_of_size_lt (by decide)
  exact ⟨horderly,
    (perform_passes_checks (List.cons_ne_nil _ _) (by decide) horderly hcountable).2.2⟩

/-- With a string whose bytes end just where the counter does, the sum is out of range. -/
theorem longString_fails_check :
    let l := Assembler.DataLine.ofLength (2 ^ 32 - 2 ^ 8)
    l.text = "DB '".toList ++ List.replicate (2 ^ 32 - 2 ^ 8) 'A' ++ ['\''] ∧
      Checked.perform (ofDrives [.memory .empty]) (.assemble l.text 0x0100) = none := by
  have hsum : 2 ^ 32 ≤ (0x0100 : UInt16).toNat + (2 ^ 32 - 2 ^ 8) % 2 ^ 32 := by decide
  refine ⟨Assembler.DataLine.text_ofLength _, ?_⟩
  rw [Checked.perform, Checked.assemble, Assembler.Checked.ofText_ofLength_eq_none hsum]
  rfl

end Cpm80.Session
