import Cpm80.Proofs.Reachable
import Cpm80.Proofs.UnseenCommands

/-!
# Fresh starts

A session that has been reset is a new session on the same drives: it has the same state, and
it gives the same answers to whatever is done with it from then on. What its screen had shown
and nobody had seen is still there, in the place of the first prompt of a new session. The user
number is not reset: it is the one that a program has left behind.
-/
namespace Cpm80.Session

/-- `t` is `s` behind bytes that have not been seen. Usage is left out of account. -/
structure Unseen (front : Array UInt8) (s t : Session) : Prop where
  computer : s.computer.Unseen front t.computer
  cycles : t.cycles = s.cycles
  instructions : t.instructions = s.instructions
  awaitingInput : t.awaitingInput = s.awaitingInput
  owesPrompt : t.owesPrompt = s.owesPrompt
  mode : t.mode = s.mode

namespace Unseen

variable {front : Array UInt8} {s t : Session}

theorem exists_eq (h : s.Unseen front t) : ∃ u, t =
    ⟨⟨s.computer.cpu, s.computer.station.memory, s.computer.station.disk,
      s.computer.station.console.behind front, u⟩, s.cycles, s.instructions, s.awaitingInput,
      s.owesPrompt, s.mode⟩ := by
  obtain ⟨⟨q, st⟩, n, i, w, o, m⟩ := t
  obtain ⟨⟨hcpu, hstation⟩, hn, hi, hw, ho, hm⟩ := h
  obtain ⟨u, hu⟩ := hstation.exists_usage
  exact ⟨u, by congr⟩

theorem onStation (h : s.Unseen front t) {f g : Station → Station}
    (hf : (f s.computer.station).Unseen front (g t.computer.station)) :
    (s.onStation f).Unseen front (t.onStation g) := by
  obtain ⟨⟨p, st⟩, n, i, w, o, m⟩ := s
  obtain ⟨⟨q, st'⟩, n', i', w', o', m'⟩ := t
  exact ⟨⟨h.computer.cpu, hf⟩, h.cycles, h.instructions, h.awaitingInput, h.owesPrompt, h.mode⟩

theorem onConsole (h : s.Unseen front t) {f : Console → Console}
    (hf : ∀ c : Console, f (c.behind front) = (f c).behind front) :
    (s.onConsole f).Unseen front (t.onConsole f) :=
  h.onStation (h.computer.station.onConsole hf)

theorem printPrompt (h : s.Unseen front t) : s.printPrompt.Unseen front t.printPrompt := by
  obtain ⟨v, rfl⟩ := h.exists_eq
  obtain ⟨⟨p, m, d, c, u⟩, n, i, w, o, mode⟩ := s
  unfold Session.printPrompt
  dsimp only
  split
  · exact ⟨⟨rfl, rfl, rfl, c.print_behind _⟩, rfl, rfl, rfl, rfl, rfl⟩
  · exact ⟨⟨rfl, rfl, rfl, rfl⟩, rfl, rfl, rfl, rfl, rfl⟩

theorem settlePrompt (h : s.Unseen front t) (halted : Bool) :
    (s.settlePrompt halted).Unseen front (t.settlePrompt halted) := by
  unfold Session.settlePrompt
  rw [h.owesPrompt]
  split
  · apply printPrompt
    apply onConsole _ Console.endLine_behind
    exact { h with owesPrompt := rfl }
  · exact h

theorem start (h : s.Unseen front t) (entry : UInt16) :
    (s.start entry).Unseen front (t.start entry) := by
  obtain ⟨c, n, i, w, o, m⟩ := s
  obtain ⟨c', n', i', w', o', m'⟩ := t
  exact ⟨h.computer.start entry, h.cycles, h.instructions, rfl, rfl, h.mode⟩

theorem ranFor (h : s.Unseen front t) (budget : Nat) :
    (s.ranFor budget).Unseen front (t.ranFor budget) := by
  obtain ⟨hstop, hused, hparks⟩ := h.computer.run budget
  refine ⟨⟨hstop.cpu, ?_⟩, ?_, ?_, hparks, h.owesPrompt, h.mode⟩
  · exact hstop.station.onUsage (fun u => u.addRun _ _) fun u => u.addRun _ _
  · simp only [Session.ranFor, h.cycles, hused]
  · simp only [Session.ranFor, h.instructions, hused]

theorem resume (h : s.Unseen front t) (budget : Nat) :
    (s.resume budget).1.Unseen front (t.resume budget).1 ∧
      (t.resume budget).2 = (s.resume budget).2 := by
  constructor
  · rw [resume_fst, resume_fst, (h.ranFor budget).computer.cpu]
    exact (h.ranFor budget).settlePrompt _
  · obtain ⟨c, n, i, w, o, m⟩ := s
    obtain ⟨c', n', i', w', o', m'⟩ := t
    obtain ⟨hstop, hused, hparks⟩ := Computer.Unseen.run h.computer budget
    simp only [Session.resume, Computer.run_eq, Machine.Tally.empty_add, hused, hparks, hstop.cpu]

theorem run (h : s.Unseen front t) (entry : Option UInt16) (budget : Nat) :
    (s.run entry budget).1.Unseen front (t.run entry budget).1 ∧
      (t.run entry budget).2 = (s.run entry budget).2 := by
  cases entry with
  | none => exact h.resume budget
  | some entry => exact (h.start entry).resume budget

theorem reset (h : s.Unseen front t) : s.reset.Unseen front t.reset := by
  obtain ⟨v, rfl⟩ := h.exists_eq
  obtain ⟨⟨p, m, d, c, u⟩, n, i, w, o, mode⟩ := s
  cases mode <;> exact ⟨⟨rfl, rfl, rfl, rfl⟩, rfl, rfl, rfl, rfl, rfl⟩

theorem load (h : s.Unseen front t) (a : UInt16) (bytes : List UInt8) :
    (s.load a bytes).1.Unseen front (t.load a bytes).1 ∧
      (t.load a bytes).2 = (s.load a bytes).2 := by
  obtain ⟨v, rfl⟩ := h.exists_eq
  obtain ⟨⟨p, m, d, c, u⟩, n, i, w, o, mode⟩ := s
  unfold Session.load
  dsimp only
  split <;> exact ⟨⟨⟨rfl, rfl, rfl, rfl⟩, rfl, rfl, rfl, rfl, rfl⟩, rfl⟩

theorem assemble (h : s.Unseen front t) (source : List Char) (origin : UInt16) :
    (s.assemble source origin).1.Unseen front (t.assemble source origin).1 ∧
      (t.assemble source origin).2 = (s.assemble source origin).2 := by
  have hcounted (clean : Bool) := h.onStation (h.computer.station.onUsage
    (fun u => u.addAssembly clean) (fun u => u.addAssembly clean))
  unfold Session.assemble
  dsimp only
  split
  · obtain ⟨hloaded, hresult⟩ := (hcounted (Assembly.ofText source origin).isOk).load
      (Assembly.ofText source origin).origin (Assembly.ofText source origin).image.toList
    generalize Session.load _ _ (s.onStation _) = x at hloaded hresult ⊢
    generalize Session.load _ _ (t.onStation _) = y at hloaded hresult ⊢
    obtain ⟨s, e⟩ := x
    obtain ⟨t, e'⟩ := y
    obtain rfl : e' = e := hresult
    cases e' with
    | none => exact ⟨hloaded, rfl⟩
    | some e => exact ⟨hloaded, rfl⟩
  · exact ⟨hcounted _, rfl⟩

theorem step (h : s.Unseen front t) :
    s.step.1.Unseen front t.step.1 ∧ t.step.2 = s.step.2 := by
  obtain ⟨c, n, i, w, o, m⟩ := s
  obtain ⟨c', n', i', w', o', m'⟩ := t
  obtain ⟨hcomputer, hn, hi, hw, ho, hm⟩ := h
  obtain ⟨hnext, hprogress⟩ := Computer.Unseen.advance hcomputer
  unfold Session.step
  dsimp only
  generalize c.advance = x at hnext hprogress
  generalize c'.advance = y at hnext hprogress
  obtain ⟨d, progress⟩ := x
  obtain ⟨d', progress'⟩ := y
  obtain rfl : progress' = progress := hprogress
  cases progress' with
  | executed cost => exact ⟨⟨hnext, congrArg (· + cost) hn, congrArg (· + 1) hi, rfl, ho, hm⟩, rfl⟩
  | waiting => exact ⟨⟨hnext, hn, hi, rfl, ho, hm⟩, rfl⟩
  | halted => exact ⟨⟨hnext, hn, hi, hw, ho, hm⟩, rfl⟩

/-- What is looked at is what was in front and what has been shown behind it; after that nothing
is in front any more. -/
theorem takeBytes (h : s.Unseen front t) :
    s.takeBytes.2.Unseen #[] t.takeBytes.2 ∧
      t.takeBytes.1 = front.toList ++ s.takeBytes.1 := by
  obtain ⟨v, rfl⟩ := h.exists_eq
  obtain ⟨⟨p, m, d, c, u⟩, n, i, w, o, mode⟩ := s
  exact ⟨⟨⟨rfl, rfl, rfl, rfl⟩, rfl, rfl, rfl, rfl, rfl⟩, Array.toList_append⟩

theorem follow (h : s.Unseen front t) (outcome : CommandOutcome) (budget : Nat) :
    (s.follow outcome budget).1.Unseen front (t.follow outcome budget).1 ∧
      (t.follow outcome budget).2 = (s.follow outcome budget).2 := by
  cases outcome with
  | done => exact ⟨h.printPrompt, rfl⟩
  | noLetter => exact ⟨{ h with mode := rfl }, rfl⟩
  | run entry =>
    have howing : Unseen front { s.start entry with owesPrompt := true }
        { t.start entry with owesPrompt := true } := { h.start entry with owesPrompt := rfl }
    obtain ⟨hrun, hreport⟩ := howing.resume budget
    exact ⟨hrun, congrArg some hreport⟩
  | edit drive name =>
    obtain ⟨⟨p, st⟩, n, i, w, o, m⟩ := s
    obtain ⟨⟨q, st'⟩, n', i', w', o', m'⟩ := t
    obtain ⟨⟨hcpu, hstation⟩, hn, hi, hw, ho, hm⟩ := h
    obtain ⟨hstarted, heditor⟩ := LineEditor.start_unseen hstation drive name
    exact ⟨⟨⟨hcpu, hstarted⟩, hn, hi, hw, ho, congrArg Mode.editor heditor⟩, rfl⟩
  | basic =>
    obtain ⟨⟨p, st⟩, n, i, w, o, m⟩ := s
    obtain ⟨⟨q, st'⟩, n', i', w', o', m'⟩ := t
    obtain ⟨⟨hcpu, hstation⟩, hn, hi, hw, ho, hm⟩ := h
    obtain ⟨hstarted, hinterpreter⟩ := Basic.Interpreter.start_same hstation
    exact ⟨⟨⟨hcpu, hstarted⟩, hn, hi, hw, ho, congrArg Mode.basic hinterpreter⟩, rfl⟩
  | exit =>
    have hshown := h.onConsole (f := fun c => c.printLine "GOODBYE") fun c => c.printLine_behind _
    exact ⟨{ hshown with mode := rfl }, rfl⟩

theorem command (h : s.Unseen front t) (line : List Char) (budget : Nat) :
    (s.command line budget).1.Unseen front (t.command line budget).1 ∧
      (t.command line budget).2 = (s.command line budget).2 := by
  obtain ⟨⟨p, st⟩, n, i, w, o, m⟩ := s
  obtain ⟨⟨q, st'⟩, n', i', w', o', m'⟩ := t
  obtain ⟨⟨hcpu, hstation⟩, hn, hi, hw, ho, hm⟩ := h
  obtain rfl : m' = m := hm
  cases m' with
  | exited why => exact ⟨⟨⟨hcpu, hstation⟩, hn, hi, hw, ho, rfl⟩, rfl⟩
  | commandLine =>
    obtain ⟨hobeyed, houtcome⟩ := CommandLine.execute_unseen hstation line
    have hnext : Unseen front
        ⟨⟨p, (CommandLine.execute line st).1⟩, n, i, w, o, .commandLine⟩
        ⟨⟨q, (CommandLine.execute line st').1⟩, n', i', w', o', .commandLine⟩ :=
      ⟨⟨hcpu, hobeyed⟩, hn, hi, hw, ho, rfl⟩
    simp only [Session.command]
    rw [show (CommandLine.execute line st').2 = (CommandLine.execute line st).2 from houtcome]
    exact hnext.follow _ budget
  | editor e =>
    obtain ⟨hhandled, heditor, hstatus⟩ := LineEditor.handle_unseen hstation e line
    simp only [Session.command]
    generalize e.handle line _ = x at hhandled heditor hstatus ⊢
    generalize e.handle line _ = y at hhandled heditor hstatus ⊢
    obtain ⟨e, st, status⟩ := x
    obtain ⟨e', st', status'⟩ := y
    obtain rfl : e' = e := heditor
    obtain rfl : status' = status := hstatus
    cases status' with
    | editing => exact ⟨⟨⟨hcpu, hhandled⟩, hn, hi, hw, ho, rfl⟩, rfl⟩
    | quit =>
      have hleft : Unseen front ⟨⟨p, st⟩, n, i, w, o, .commandLine⟩
          ⟨⟨q, st'⟩, n', i', w', o', .commandLine⟩ := ⟨⟨hcpu, hhandled⟩, hn, hi, hw, ho, rfl⟩
      exact ⟨hleft.printPrompt, rfl⟩
  | basic b =>
    obtain ⟨hhandled, hinterpreter, hstatus⟩ :=
      Basic.Interpreter.handle_same hstation budget b line
    simp only [Session.command]
    generalize b.handle budget line _ = x at hhandled hinterpreter hstatus ⊢
    generalize b.handle budget line _ = y at hhandled hinterpreter hstatus ⊢
    obtain ⟨b, st, status⟩ := x
    obtain ⟨b', st', status'⟩ := y
    obtain rfl : b' = b := hinterpreter
    obtain rfl : status' = status := hstatus
    cases status' with
    | ready | awaitingInput | noDrive =>
      exact ⟨⟨⟨hcpu, hhandled⟩, hn, hi, hw, ho, rfl⟩, rfl⟩
    | quit =>
      have hleft : Unseen front ⟨⟨p, st⟩, n, i, w, o, .commandLine⟩
          ⟨⟨q, st'⟩, n', i', w', o', .commandLine⟩ := ⟨⟨hcpu, hhandled⟩, hn, hi, hw, ho, rfl⟩
      exact ⟨hleft.printPrompt, rfl⟩

theorem enterLine (h : s.Unseen front t) (line : List Char) (budget : Nat) :
    (s.enterLine line budget).1.Unseen front (t.enterLine line budget).1 ∧
      (t.enterLine line budget).2 = (s.enterLine line budget).2 := by
  have htyped : (s.typeLine line).Unseen front (t.typeLine line) := h.onConsole fun _ => rfl
  obtain ⟨hrun, hreport⟩ := htyped.resume budget
  unfold Session.enterLine
  rw [h.mode]
  split
  · exact h.command line budget
  · exact h.command line budget
  · exact ⟨h, rfl⟩
  · dsimp only
    rw [htyped.awaitingInput]
    split
    · exact ⟨hrun, congrArg some hreport⟩
    · exact ⟨htyped, rfl⟩

end Unseen

/-! ## Answers -/

/-- What an operation tells whoever asked for it. The usage counts are not told. -/
inductive Answer
  | done
  | loaded (error : Option OutOfBounds)
  | assembled (result : Except OutOfBounds Assembly)
  | ran (report : RunReport)
  | stepped (cost : Nat)
  /-- The bytes of the text that is shown. -/
  | shown (bytes : List UInt8)
  | obeyed (report : Option RunReport)

def answer (s : Session) : Operation → Answer
  | .load a bytes => .loaded (s.load a bytes).2
  | .assemble source origin => .assembled (s.assemble source origin).2
  | .run entry budget => .ran (s.run entry budget).2
  | .step => .stepped s.step.2
  | .takeOutput => .shown s.takeBytes.1
  | .enterLine line budget => .obeyed (s.enterLine line budget).2
  | .command line budget => .obeyed (s.command line budget).2
  | _ => .done

/-- The session after operations one after another. -/
def after (s : Session) (operations : List Operation) : Session :=
  operations.foldl perform s

theorem Reachable.after {s : Session} (h : s.Reachable) (operations : List Operation) :
    (s.after operations).Reachable := by
  induction operations generalizing s with
  | nil => exact h
  | cons o rest ih => exact ih (h.perform o)

theorem after_append (s : Session) (front back : List Operation) :
    s.after (front ++ back) = (s.after front).after back :=
  List.foldl_append

/-- The answers to operations one after another. -/
def answers (s : Session) : List Operation → List Answer
  | [] => []
  | o :: rest => s.answer o :: (s.perform o).answers rest

/-- The answers when some bytes have been shown before: whoever looks first sees them. -/
def inFront (front : List UInt8) : List Answer → List Answer
  | [] => []
  | .shown bytes :: rest => .shown (front ++ bytes) :: rest
  | a :: rest => a :: inFront front rest

theorem inFront_nil (answers : List Answer) : inFront [] answers = answers := by
  fun_induction inFront [] answers with
  | case1 => rfl
  | case2 bytes rest => rfl
  | case3 rest a _ ih => exact congrArg _ ih

namespace Unseen

variable {front : Array UInt8} {s t : Session} {o : Operation}

/-- Whoever looks at the output sees what is in front of it. -/
theorem perform_takeOutput (h : s.Unseen front t) :
    (s.perform .takeOutput).Unseen #[] (t.perform .takeOutput) ∧
      t.answer .takeOutput = .shown (front.toList ++ s.takeBytes.1) := by
  obtain ⟨hseen, hbytes⟩ := h.takeBytes
  exact ⟨hseen, congrArg Answer.shown hbytes⟩

/-- To no other operation it makes a difference. -/
theorem perform (h : s.Unseen front t) (ho : o ≠ .takeOutput) :
    (s.perform o).Unseen front (t.perform o) ∧ t.answer o = s.answer o := by
  cases o with
  | takeOutput => exact absurd rfl ho
  | reset => exact ⟨h.reset, rfl⟩
  | load a bytes => exact (h.load a bytes).imp id (congrArg Answer.loaded)
  | assemble source origin => exact (h.assemble source origin).imp id (congrArg Answer.assembled)
  | run entry budget => exact (h.run entry budget).imp id (congrArg Answer.ran)
  | step => exact h.step.imp id (congrArg Answer.stepped)
  | type bytes => exact ⟨h.onConsole fun _ => rfl, rfl⟩
  | typeLine line => exact ⟨h.onConsole fun _ => rfl, rfl⟩
  | takeUsage =>
    obtain ⟨v, rfl⟩ := h.exists_eq
    obtain ⟨⟨p, m, d, c, u⟩, n, i, w, owes, mode⟩ := s
    exact ⟨⟨⟨rfl, rfl, rfl, rfl⟩, rfl, rfl, rfl, rfl, rfl⟩, rfl⟩
  | enterLine line budget => exact (h.enterLine line budget).imp id (congrArg Answer.obeyed)
  | command line budget => exact (h.command line budget).imp id (congrArg Answer.obeyed)
  | changeDisk f => exact ⟨h.onStation (h.computer.station.onDisk f), rfl⟩
  | setRegisters p =>
    obtain ⟨v, rfl⟩ := h.exists_eq
    obtain ⟨⟨q, m, d, c, u⟩, n, i, w, owes, mode⟩ := s
    exact ⟨⟨⟨rfl, rfl, rfl, rfl⟩, rfl, rfl, rfl, rfl, rfl⟩, rfl⟩

/-- The answers are the same but for the bytes that the first look at the output finds in front
of it. -/
theorem answers (h : s.Unseen front t) (operations : List Operation) :
    t.answers operations = inFront front.toList (s.answers operations) := by
  induction operations generalizing front s t with
  | nil => rfl
  | cons o rest ih =>
    rw [Session.answers, Session.answers]
    by_cases ho : o = .takeOutput
    · subst ho
      obtain ⟨hseen, hanswer⟩ := h.perform_takeOutput
      rw [ih hseen, hanswer, inFront_nil]
      rfl
    · obtain ⟨hlater, hanswer⟩ := h.perform ho
      rw [ih hlater, hanswer]
      cases o <;> first | rfl | exact absurd rfl ho

/-- What is in front stays there until somebody looks. -/
theorem after (h : s.Unseen front t) (operations : List Operation) :
    ∃ left, (s.after operations).Unseen left (t.after operations) := by
  induction operations generalizing front s t with
  | nil => exact ⟨front, h⟩
  | cons o rest ih =>
    by_cases ho : o = .takeOutput
    · exact ih (ho ▸ h.perform_takeOutput.1)
    · exact ih (h.perform ho).1

end Unseen

/-! ## Reset -/

/-- The sessions are in the same state but for the output that nobody has seen. Usage is left
out of account. -/
structure SameButOutput (s t : Session) : Prop where
  cpu : t.computer.cpu = s.computer.cpu
  memory : t.computer.station.memory = s.computer.station.memory
  disk : t.computer.station.disk = s.computer.station.disk
  input : t.computer.station.console.input = s.computer.station.console.input
  afterReturn : t.computer.station.console.afterReturn = s.computer.station.console.afterReturn
  cycles : t.cycles = s.cycles
  instructions : t.instructions = s.instructions
  awaitingInput : t.awaitingInput = s.awaitingInput
  owesPrompt : t.owesPrompt = s.owesPrompt
  mode : t.mode = s.mode

theorem Unseen.sameButOutput {front back : Array UInt8} {b s t : Session}
    (hs : b.Unseen front s) (ht : b.Unseen back t) : s.SameButOutput t := by
  obtain ⟨u, rfl⟩ := hs.exists_eq
  obtain ⟨v, rfl⟩ := ht.exists_eq
  exact ⟨rfl, rfl, rfl, rfl, rfl, rfl, rfl, rfl, rfl, rfl⟩

/-- What the session has shown and nobody has seen. -/
def unseen (s : Session) : List UInt8 :=
  s.computer.station.console.output.toList

def drives (s : Session) : List Drive :=
  s.computer.station.disk.drives

def user (s : Session) : UInt8 :=
  s.computer.station.disk.user

/-- A new session on drives, for a user. -/
def ofDrivesFor (user : UInt8) (drives : List Drive) : Session :=
  (ofDrives drives).onStation fun st => st.onDisk fun d => { d with user }

/-- A new session is for the user zero. -/
theorem ofDrivesFor_zero (drives : List Drive) : ofDrivesFor 0 drives = ofDrives drives := rfl

/-- A new session that has shown nothing yet. -/
def blank (user : UInt8) (drives : List Drive) : Session where
  computer := ⟨.initial, ⟨Computer.installLowMemory .blank, { drives, user }, {}, .none⟩⟩

theorem unseen_ofDrivesFor (user : UInt8) (drives : List Drive) :
    (blank user drives).Unseen (ofDrivesFor user drives).computer.station.console.output
      (ofDrivesFor user drives) :=
  ⟨⟨rfl, rfl, rfl, (Console.behind_blank _).symm⟩, rfl, rfl, rfl, rfl, rfl⟩

theorem unseen_reset {s : Session} (h : s.hasExited = false) :
    (blank s.user s.drives).Unseen s.computer.station.console.output s.reset := by
  obtain ⟨⟨p, m, d, c, u⟩, n, i, w, o, mode⟩ := s
  have hreset : reset ⟨⟨p, m, d, c, u⟩, n, i, w, o, mode⟩ =
      { computer := (⟨p, m, d, c, u⟩ : Computer).reset } := by
    cases mode with
    | exited why => cases h
    | _ => rfl
  rw [hreset]
  exact ⟨⟨rfl, rfl, rfl, (Console.behind_blank _).symm⟩, rfl, rfl, rfl, rfl, rfl⟩

/-- A session that has been reset cannot be told from a new one on its drives for its user: after
whatever is done with both, they are in the same state, and they give the same answers, except
that whoever looks first at the output of the one sees what had not been seen before the reset,
and at the output of the other its first prompt. For the user zero that is a new session as it
comes. -/
theorem reset_starts_afresh {s : Session} (h : s.hasExited = false) (operations : List Operation) :
    let fresh := ofDrivesFor s.user s.drives
    (s.user = 0 → fresh = ofDrives s.drives) ∧
      (fresh.after operations).SameButOutput (s.reset.after operations) ∧
      ∃ answers, fresh.answers operations = inFront fresh.unseen answers ∧
        s.reset.answers operations = inFront s.unseen answers := by
  intro fresh
  have hfresh := unseen_ofDrivesFor s.user s.drives
  have hreset := unseen_reset h
  obtain ⟨_, hfreshAfter⟩ := hfresh.after operations
  obtain ⟨_, hresetAfter⟩ := hreset.after operations
  refine ⟨fun huser => ?_, hfreshAfter.sameButOutput hresetAfter,
    (blank s.user s.drives).answers operations, hfresh.answers operations,
    hreset.answers operations⟩
  rw [← ofDrivesFor_zero, ← huser]

/-- Has the processor perform a system call. -/
def calling (function parameter : UInt8) : List Operation :=
  [.setRegisters { Processor.initial with
      pc := Computer.entryPoint, c := function, e := parameter },
    .step]

/-- A session in which the user number has been set to five. -/
def leftByFive : Session :=
  (ofDrives [.memory .empty]).after (calling 33 5)

theorem reset_starts_afresh_five :
    leftByFive.hasExited = false ∧ leftByFive.user = 5 ∧
      ((ofDrivesFor 5 leftByFive.drives).after (calling 32 0)).SameButOutput
        (leftByFive.reset.after (calling 32 0)) := by
  have hmode : leftByFive.hasExited = false := by decide +kernel
  have huser : leftByFive.user = 5 := by decide +kernel
  have hsame := (reset_starts_afresh hmode (calling 32 0)).2.1
  exact ⟨hmode, huser, huser ▸ hsame⟩

/-- The user number shows to the programs after the reset: where a new session tells them zero,
they are told what has been set before the reset. -/
theorem not_reset_starts_as_new :
    ∃ s : Session, s.Reachable ∧ s.hasExited = false ∧
      ∃ operations, ((ofDrives s.drives).after operations).computer.cpu.a = 0 ∧
        (s.reset.after operations).computer.cpu.a = 5 := by
  have hreachable : leftByFive.Reachable := (Reachable.ofDrives _).after (calling 33 5)
  exact ⟨leftByFive, hreachable, by decide +kernel, calling 32 0, by decide +kernel,
    by decide +kernel⟩

end Cpm80.Session
