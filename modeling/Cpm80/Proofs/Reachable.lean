import Cpm80.Proofs.KeyboardReads
import Cpm80.Proofs.SessionRuns

/-!
# Reachable sessions

What can be done with a session from outside, and the states that a new session can get into
that way. A session is noted to wait for input only by an operation that leaves its processor at a
read, and the note is kept only together with the processor. So in all states a session that is
noted to wait is not halted.
-/
namespace Cpm80.Session

/-- What can be done with a session. -/
inductive Operation
  | reset
  | load (a : UInt16) (bytes : List UInt8)
  | assemble (source : List Char) (origin : UInt16)
  | run (entry : Option UInt16) (budget : Nat)
  | step
  | type (bytes : List UInt8)
  | typeLine (line : List Char)
  | takeOutput
  | takeUsage
  | enterLine (line : List Char) (budget : Nat)
  | command (line : List Char) (budget : Nat)
  /-- Whatever is done to the drives from outside. -/
  | changeDisk (f : DiskSystem → DiskSystem)
  /-- New contents of the registers; the switches of the processor stay. -/
  | setRegisters (p : Processor)

def perform (s : Session) : Operation → Session
  | .reset => s.reset
  | .load a bytes => (s.load a bytes).1
  | .assemble source origin => (s.assemble source origin).1
  | .run entry budget => (s.run entry budget).1
  | .step => s.step.1
  | .type bytes => s.type bytes
  | .typeLine line => s.typeLine line
  | .takeOutput => s.takeOutput.2
  | .takeUsage => s.takeUsage.2
  | .enterLine line budget => (s.enterLine line budget).1
  | .command line budget => (s.command line budget).1
  | .changeDisk f => s.onStation fun st => st.onDisk f
  | .setRegisters p => s.onComputer fun c =>
    { c with cpu := { p with
        halted := c.cpu.halted, interruptsEnabled := c.cpu.interruptsEnabled } }

/-- The states that new sessions can get into. -/
inductive Reachable : Session → Prop
  | ofDrives (drives : List Drive) : Reachable (.ofDrives drives)
  | perform {s : Session} (h : Reachable s) (o : Operation) : Reachable (s.perform o)

/-- A program that is a single `HLT` has been started from the command line, for no cycles. -/
def haltStarted : Session :=
  (ofDrives [.memory (.ofList [("HALT.COM", #[0x76])])]).perform (.command ['H', 'A', 'L', 'T'] 0)

theorem reachable_haltStarted : haltStarted.Reachable := by
  unfold haltStarted
  exact .perform (.ofDrives _) _

variable {s t : Session}

/-- Whether the command line is who reads the next line. -/
def isAtCommandLine (s : Session) : Bool :=
  match s.mode with
  | .commandLine => true
  | _ => false

theorem isAtCommandLine_iff : s.isAtCommandLine = true ↔ s.mode = .commandLine := by
  rw [isAtCommandLine]
  split
  case h_1 hmode => simp [hmode]
  case h_2 hother =>
    constructor
    · intro h
      cases h
    · exact fun hmode => absurd hmode hother

/-! ## The note that a session waits -/

/-- What is noted about `t` is right, or comes from `s`: if `t` is noted to wait for input, its
processor stands at a read, or it is the processor of `s`, which was noted to wait as well. -/
def NotedFrom (s t : Session) : Prop :=
  t.awaitingInput = true →
    t.computer.AtRead ∨ (s.awaitingInput = true ∧ t.computer.cpu = s.computer.cpu)

theorem NotedFrom.of_eq (hcpu : t.computer.cpu = s.computer.cpu)
    (hawaiting : t.awaitingInput = s.awaitingInput) : s.NotedFrom t :=
  fun h => .inr ⟨hawaiting.symm.trans h, hcpu⟩

theorem NotedFrom.of_eq_false (h : t.awaitingInput = false) : s.NotedFrom t := by
  intro hawaiting
  rw [h] at hawaiting
  cases hawaiting

theorem noted_printPrompt (s : Session) : s.NotedFrom s.printPrompt := by
  obtain ⟨⟨p, st⟩, n, i, w, o, m⟩ := s
  unfold printPrompt
  dsimp only
  split <;> exact .of_eq rfl rfl

/-- A run notes that the session waits only if it stops at a read. -/
theorem noted_resume (budget : Nat) (s t : Session) : t.NotedFrom (s.resume budget).1 := by
  intro hawaiting
  left
  rw [resume_fst, awaitingInput_settlePrompt] at hawaiting
  have hstarved := Computer.advance_eq_waiting_iff.mp (Computer.advance_stop_of_parks hawaiting)
  have hcpu : (s.resume budget).1.computer.cpu = (s.computer.stop budget).cpu := by
    rw [resume_fst, cpu_settlePrompt]
    rfl
  exact hstarved.atRead.of_cpu_eq hcpu

theorem noted_run (entry : Option UInt16) (budget : Nat) (s : Session) :
    s.NotedFrom (s.run entry budget).1 := by
  cases entry with
  | none => exact noted_resume budget s s
  | some entry => exact noted_resume budget (s.start entry) s

theorem noted_step (s : Session) : s.NotedFrom s.step.1 := by
  obtain ⟨c, n, i, w, o, m⟩ := s
  unfold step
  dsimp only
  split
  · exact .of_eq_false rfl
  · next d hd =>
    obtain rfl := Computer.eq_of_advance_waiting hd
    exact fun _ => .inl (Computer.advance_eq_waiting_iff.mp hd).atRead
  · next d hd =>
    obtain rfl := Computer.eq_of_advance_halted hd
    exact .of_eq rfl rfl

theorem noted_load (s : Session) (a : UInt16) (bytes : List UInt8) :
    s.NotedFrom (s.load a bytes).1 := by
  obtain ⟨⟨p, m, d, c, u⟩, n, i, w, o, mode⟩ := s
  unfold load
  dsimp only
  split <;> exact .of_eq rfl rfl

theorem noted_assemble (s : Session) (source : List Char) (origin : UInt16) :
    s.NotedFrom (s.assemble source origin).1 := by
  unfold assemble
  dsimp only
  generalize Assembly.ofText source origin = a
  have hloaded := noted_load (s.onStation fun st => st.onUsage fun u => u.addAssembly a.isOk)
    a.origin a.image.toList
  split
  · split
    · next hl =>
      rw [hl] at hloaded
      exact hloaded
    · next hl =>
      rw [hl] at hloaded
      exact hloaded
  · exact .of_eq rfl rfl

theorem noted_follow (s : Session) (outcome : CommandOutcome) (budget : Nat) :
    s.NotedFrom (s.follow outcome budget).1 := by
  cases outcome with
  | done => exact noted_printPrompt s
  | run entry =>
    simp only [follow]
    exact noted_resume budget _ s
  | noLetter | edit | basic | exit =>
    obtain ⟨⟨p, st⟩, n, i, w, o, m⟩ := s
    exact .of_eq rfl rfl

theorem noted_command (s : Session) (line : List Char) (budget : Nat) :
    s.NotedFrom (s.command line budget).1 := by
  obtain ⟨⟨p, st⟩, n, i, w, o, m⟩ := s
  cases m with
  | commandLine =>
    exact noted_follow ⟨⟨p, (CommandLine.execute line st).1⟩, n, i, w, o, .commandLine⟩
      (CommandLine.execute line st).2 budget
  | editor e =>
    simp only [command]
    split
    case h_1 => exact .of_eq rfl rfl
    case h_2 left st' hquit => exact noted_printPrompt ⟨⟨p, st'⟩, n, i, w, o, .commandLine⟩
  | basic b =>
    simp only [command]
    split
    case h_1 left st' hquit => exact noted_printPrompt ⟨⟨p, st'⟩, n, i, w, o, .commandLine⟩
    case h_2 | h_3 => exact .of_eq rfl rfl
  | exited why => exact .of_eq rfl rfl

theorem noted_enterLine (s : Session) (line : List Char) (budget : Nat) :
    s.NotedFrom (s.enterLine line budget).1 := by
  unfold enterLine
  split
  · exact noted_command s line budget
  · exact noted_command s line budget
  · exact .of_eq rfl rfl
  · dsimp only
    split
    · exact noted_resume budget (s.typeLine line) s
    · exact .of_eq rfl rfl

/-- Whether the operation puts other contents into the registers from outside. -/
def Operation.setsRegisters : Operation → Bool
  | setRegisters _ => true
  | _ => false

theorem noted_perform (s : Session) {o : Operation} (h : o.setsRegisters = false) :
    s.NotedFrom (s.perform o) := by
  cases o with
  | reset =>
    obtain ⟨c, n, i, w, o, m⟩ := s
    cases m <;> exact .of_eq_false rfl
  | load a bytes => exact noted_load s a bytes
  | assemble source origin => exact noted_assemble s source origin
  | run entry budget => exact noted_run entry budget s
  | step => exact noted_step s
  | enterLine line budget => exact noted_enterLine s line budget
  | command line budget => exact noted_command s line budget
  | type | typeLine | takeOutput | takeUsage | changeDisk => exact .of_eq rfl rfl
  | setRegisters => cases h

/-! ## Halted sessions do not wait -/

/-- A session that is noted to wait for input is not halted. -/
def Wakeful (s : Session) : Prop :=
  s.computer.cpu.halted = true → s.awaitingInput = false

theorem Wakeful.of_noted (h : s.Wakeful) (hnoted : s.NotedFrom t) : t.Wakeful := by
  intro hhalted
  rw [Bool.eq_false_iff]
  intro hawaiting
  rcases hnoted hawaiting with hread | ⟨hbefore, hcpu⟩
  · have hrunning := hread.running
    rw [hhalted] at hrunning
    cases hrunning
  · rw [h (hcpu ▸ hhalted)] at hbefore
    cases hbefore

theorem wakeful_step (h : s.Wakeful) : s.step.1.Wakeful :=
  h.of_noted (noted_step s)

theorem wakeful_perform (h : s.Wakeful) (o : Operation) : (s.perform o).Wakeful := by
  cases hset : o.setsRegisters with
  | false => exact h.of_noted (noted_perform s hset)
  | true =>
    -- the switches of the processor stay
    cases o with
    | setRegisters p => exact h
    | _ => cases hset

theorem wakeful_ofDrives (drives : List Drive) : (ofDrives drives).Wakeful := by
  have hblank : Wakeful { computer := .ofDrives drives } := fun _ => rfl
  exact hblank.of_noted (noted_printPrompt _)

theorem Reachable.wakeful (h : s.Reachable) : s.Wakeful := by
  induction h with
  | ofDrives drives => exact wakeful_ofDrives drives
  | perform h o ih => exact wakeful_perform ih o

end Cpm80.Session
