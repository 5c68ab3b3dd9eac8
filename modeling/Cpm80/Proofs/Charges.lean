import Cpm80.Proofs.FreshStart
import Cpm80.Proofs.RunBounds
import Cpm80.Proofs.UsageCounts

/-!
# What a session executes and what its counts say

The instructions and system calls that a processor carries out are written down one by one, as
charges, apart from the counts that the station and the session keep. Every system call is in the
counts as soon as it has been carried out; one that waits for the keyboard is not carried out yet.
Instructions and cycles get into the counts where a run ends. A single step is no run, and what
it executes is missing from them.
-/
namespace Cpm80

/-- An instruction or a system call that has been carried out. -/
structure Charge where
  cost : Nat
  /-- The function number of a system call. -/
  function? : Option UInt8
  deriving DecidableEq, Repr

namespace Charge

/-- What they cost together. -/
def cycles : List Charge → Nat
  | [] => 0
  | c :: rest => c.cost + cycles rest

/-- How many of them call the functions that are selected. -/
def callsTo (p : Nat → Bool) (charges : List Charge) : Nat :=
  charges.countP fun c => c.function?.any fun function => p function.toNat

theorem cycles_append (charges more : List Charge) :
    cycles (charges ++ more) = cycles charges + cycles more := by
  induction charges with
  | nil => rw [List.nil_append, cycles, Nat.zero_add]
  | cons c rest ih => rw [List.cons_append, cycles, cycles, ih, Nat.add_assoc]

theorem callsTo_append (p : Nat → Bool) (charges more : List Charge) :
    callsTo p (charges ++ more) = callsTo p charges + callsTo p more :=
  List.countP_append

end Charge

namespace Usage

/-- From `u` to `v` the counts have grown by the instructions and cycles of some charges and by
the system calls of others. -/
structure Grown (recorded served : List Charge) (u v : Usage) : Prop where
  instructions : v.instructions = u.instructions + recorded.length
  cycles : v.cycles = u.cycles + Charge.cycles recorded
  calls : ∀ p, v.callsTo p = u.callsTo p + Charge.callsTo p served

namespace Grown

variable {recorded served recordedLater servedLater : List Charge} {u v w : Usage}

theorem of_work_eq (h : v.work = u.work) : Grown [] [] u v where
  instructions := congrArg Work.instructions h
  cycles := congrArg Work.cycles h
  calls p := congrArg (fun work => SortedMap.totalOf p (Work.systemCalls work).entries) h

theorem trans (h : Grown recorded served u v) (h' : Grown recordedLater servedLater v w) :
    Grown (recorded ++ recordedLater) (served ++ servedLater) u w where
  instructions := by
    rw [h'.instructions, h.instructions, List.length_append, Nat.add_assoc]
  cycles := by rw [h'.cycles, h.cycles, Charge.cycles_append, Nat.add_assoc]
  calls p := by rw [h'.calls, h.calls, Charge.callsTo_append, Nat.add_assoc]

theorem trans_work (h : Grown recorded served u v) (hwork : w.work = v.work) :
    Grown recorded served u w := by
  simpa using h.trans (of_work_eq hwork)

/-- What has grown since the counts were taken over can be added to any others. -/
theorem add (h : Grown recorded served .none v) (u : Usage) :
    Grown recorded served u (u.add v) where
  instructions := by
    rw [Usage.add, h.instructions, none, Nat.zero_add]
  cycles := by
    rw [Usage.add, h.cycles, none, Nat.zero_add]
  calls p := by
    have hnone : none.callsTo p = 0 := rfl
    rw [callsTo_add, h.calls, hnone, Nat.zero_add]

end Grown

end Usage

/-! ## Computers -/

namespace SystemCall

theorem work_execute (call : SystemCall) (parameter : UInt16) (s : Station) :
    (call.execute parameter s).1.work = s.work := by
  obtain ⟨m, d, c, u⟩ := s
  cases call with
  | consoleInput =>
    simp only [execute, readByte]
    split <;> rfl
  | selectDisk =>
    simp only [execute]
    split <;> rfl
  | _ => rfl

theorem work_perform (function : UInt8) (parameter : UInt16) (s : Station) :
    (perform function parameter s).1.work = s.work := by
  unfold perform
  split
  case h_1 call hcall => exact work_execute call parameter s
  case h_2 => rfl

end SystemCall

namespace Computer

variable {c d : Computer} {budget cost : Nat}

def usage (c : Computer) : Usage :=
  c.station.usage

/-- The function that is called by the next action, if it is a system call. -/
def function? (c : Computer) : Option UInt8 :=
  if c.cpu.pc = entryPoint then some c.cpu.c else none

/-- What the next action carries out. -/
def charge? (c : Computer) : Option Charge :=
  match c.advance.2 with
  | .executed cost => some ⟨cost, c.function?⟩
  | .halted | .waiting => none

/-- What a run for a budget carries out, in order. -/
def charges (budget : Nat) (c : Computer) : List Charge :=
  if _hb : budget = 0 then []
  else
    match h : c.advance with
    | (d, .executed cost) =>
      have := cost_pos h
      ⟨cost, c.function?⟩ :: charges (budget - cost) d
    | (_, .halted) | (_, .waiting) => []
termination_by budget

@[simp] theorem charges_zero (c : Computer) : c.charges 0 = [] := by
  rw [charges, dif_pos rfl]

theorem charges_executed (hb : budget ≠ 0) (h : c.advance = (d, .executed cost)) :
    c.charges budget = ⟨cost, c.function?⟩ :: d.charges (budget - cost) := by
  rw [charges, dif_neg hb]
  split <;> simp_all

theorem charges_halted (h : c.advance = (c, .halted)) : c.charges budget = [] := by
  rw [charges]
  split
  · rfl
  · split <;> simp_all

theorem charges_waiting (h : c.advance = (c, .waiting)) : c.charges budget = [] := by
  rw [charges]
  split
  · rfl
  · split <;> simp_all

/-- The tally of a run is that of its charges. -/
theorem used_eq_charges (budget : Nat) (c : Computer) :
    c.used budget = ⟨(c.charges budget).length, Charge.cycles (c.charges budget)⟩ := by
  induction budget, c using run_induction with
  | zero c => simp [Charge.cycles]
  | executed hb hc ih =>
    rw [used_executed hb hc, charges_executed hb hc, ih]
    simp [Machine.Tally.add, Charge.cycles, Nat.add_comm]
  | halted hc => simp [used_halted hc, charges_halted hc, Charge.cycles]
  | waiting hb hc => simp [used_waiting hc, charges_waiting hc, Charge.cycles]

theorem grown_serve (h : c.cpu.pc = entryPoint) (cost : Nat) :
    Usage.Grown [] [⟨cost, c.function?⟩] c.usage c.serve.usage := by
  obtain ⟨p, s⟩ := c
  have hperformed : (SystemCall.perform p.c p.de s).1.work = s.work :=
    SystemCall.work_perform p.c p.de s
  have hserved : (serve ⟨p, s⟩).usage =
      (SystemCall.perform p.c p.de s).1.usage.addSystemCall p.c := by
    unfold serve
    dsimp only
    split <;> rfl
  rw [hserved]
  refine ⟨congrArg Work.instructions hperformed, congrArg Work.cycles hperformed, fun q => ?_⟩
  have hbefore : (SystemCall.perform p.c p.de s).1.usage.callsTo q = s.usage.callsTo q :=
    congrArg (fun work => SortedMap.totalOf q (Work.systemCalls work).entries) hperformed
  have hpc : p.pc = entryPoint := h
  rw [Usage.callsTo_addSystemCall, hbefore]
  simp [usage, Charge.callsTo, function?, hpc, List.countP_cons]

/-- An action is in the counts at once if it is a system call. -/
theorem grown_advance (h : c.advance = (d, .executed cost)) :
    Usage.Grown [] [⟨cost, c.function?⟩] c.usage d.usage := by
  cases advances_of_eq h with
  | serves hrunning hpc hready => exact grown_serve hpc _
  | executes hrunning hpc =>
    obtain ⟨p, m, d, con, u⟩ := c
    refine ⟨rfl, rfl, fun q => ?_⟩
    simp only [function?, if_neg hpc]
    rfl

theorem grown_stop (budget : Nat) (c : Computer) :
    Usage.Grown [] (c.charges budget) c.usage (c.stop budget).usage := by
  induction budget, c using run_induction with
  | zero c =>
    rw [stop_zero, charges_zero]
    exact .of_work_eq rfl
  | executed hb hc ih =>
    rw [stop_executed hb hc, charges_executed hb hc]
    exact (grown_advance hc).trans ih
  | halted hc =>
    rw [stop_halted hc, charges_halted hc]
    exact .of_work_eq rfl
  | waiting hb hc =>
    rw [stop_waiting hc, charges_waiting hc]
    exact .of_work_eq rfl

end Computer

/-! ## Sessions -/

namespace Session

def usage (s : Session) : Usage :=
  s.computer.usage

/-- What a line has the processor carry out when it is a command: something only if it starts a
program. -/
def executedByCommand (line : List Char) (budget : Nat) (s : Session) : List Charge :=
  match s.mode with
  | .commandLine =>
    let (st, outcome) := CommandLine.execute line s.computer.station
    match outcome with
    | .run entry => ((⟨s.computer.cpu, st⟩ : Computer).start entry).charges budget
    | _ => []
  | .editor _ | .basic _ | .exited _ => []

/-- What a line has the processor carry out when it is typed: something only if a program waits
for it. -/
def executedByLine (line : List Char) (budget : Nat) (s : Session) : List Charge :=
  match s.mode with
  | .commandLine => if s.awaitingInput then (s.typeLine line).computer.charges budget else []
  | .editor _ | .basic _ | .exited _ => []

/-- What the processor carries out in an operation. -/
def executed (s : Session) : Operation → List Charge
  | .run entry budget => (s.begun entry).computer.charges budget
  | .step => s.computer.charge?.toList
  | .command line budget => s.executedByCommand line budget
  | .enterLine line budget => s.executedByLine line budget
  | _ => []

/-- What of it gets into the counts of instructions and cycles. -/
def recorded (s : Session) : Operation → List Charge
  | .step => []
  | o => s.executed o

variable {s : Session}

theorem work_printPrompt (s : Session) : s.printPrompt.usage.work = s.usage.work := by
  obtain ⟨⟨p, st⟩, n, i, w, o, m⟩ := s
  unfold printPrompt
  dsimp only
  split <;> rfl

theorem work_settlePrompt (halted : Bool) (s : Session) :
    (settlePrompt halted s).usage.work = s.usage.work := by
  unfold settlePrompt
  split
  · exact work_printPrompt _
  · rfl

/-- A run puts what it carries out into the counts. -/
theorem grown_resume (budget : Nat) (s : Session) :
    Usage.Grown (s.computer.charges budget) (s.computer.charges budget) s.usage
      (s.resume budget).1.usage := by
  have hstop := Computer.grown_stop budget s.computer
  have hused := Computer.used_eq_charges budget s.computer
  have hran : Usage.Grown (s.computer.charges budget) (s.computer.charges budget) s.usage
      (s.ranFor budget).usage := by
    refine ⟨?_, ?_, hstop.calls⟩
    · have hgrown : (s.ranFor budget).usage.instructions =
          (s.computer.stop budget).usage.instructions + (s.computer.used budget).instructions := rfl
      rw [hgrown, hstop.instructions, hused]
      rfl
    · have hgrown : (s.ranFor budget).usage.cycles =
          (s.computer.stop budget).usage.cycles + (s.computer.used budget).cycles := rfl
      rw [hgrown, hstop.cycles, hused]
      rfl
  rw [resume_fst]
  exact hran.trans_work (work_settlePrompt _ _)

theorem grown_step (s : Session) :
    Usage.Grown [] s.computer.charge?.toList s.usage s.step.1.usage := by
  obtain ⟨c, n, i, w, o, m⟩ := s
  unfold step Computer.charge?
  dsimp only
  cases hresult : c.advance with
  | mk d progress =>
    cases progress with
    | executed cost => exact Computer.grown_advance hresult
    | waiting =>
      obtain rfl := Computer.eq_of_advance_waiting hresult
      exact .of_work_eq rfl
    | halted =>
      obtain rfl := Computer.eq_of_advance_halted hresult
      exact .of_work_eq rfl

theorem work_load (a : UInt16) (bytes : List UInt8) (s : Session) :
    (s.load a bytes).1.usage.work = s.usage.work := by
  obtain ⟨⟨p, m, d, c, u⟩, n, i, w, o, mode⟩ := s
  unfold load
  dsimp only
  split <;> rfl

theorem work_assemble (source : List Char) (origin : UInt16) (s : Session) :
    (s.assemble source origin).1.usage.work = s.usage.work := by
  unfold assemble
  dsimp only
  generalize Assembly.ofText source origin = a
  have hcounted : (s.onStation fun st => st.onUsage fun u => u.addAssembly a.isOk).usage.work =
      s.usage.work := Usage.work_addAssembly _ _
  have hloaded := work_load a.origin a.image.toList
    (s.onStation fun st => st.onUsage fun u => u.addAssembly a.isOk)
  split
  case isTrue =>
    split
    case h_1 hdone | h_2 hdone =>
      rw [hdone] at hloaded
      exact hloaded.trans hcounted
  case isFalse => exact hcounted

theorem work_reset (s : Session) : s.reset.usage.work = s.usage.work := by
  obtain ⟨⟨p, m, d, c, u⟩, n, i, w, o, mode⟩ := s
  cases mode <;> rfl

/-- Of what a command line can lead to, only a program costs anything. -/
theorem grown_follow (s : Session) (outcome : CommandOutcome) (budget : Nat) :
    let charges := match outcome with
      | .run entry => (s.computer.start entry).charges budget
      | _ => []
    Usage.Grown charges charges s.usage (s.follow outcome budget).1.usage := by
  obtain ⟨⟨p, st⟩, n, i, w, o, m⟩ := s
  cases outcome with
  | done => exact .of_work_eq (work_printPrompt _)
  | noLetter => exact .of_work_eq rfl
  | exit => exact .of_work_eq (Station.work_onConsole st _)
  | run entry =>
    exact grown_resume budget
      { start entry ⟨⟨p, st⟩, n, i, w, o, m⟩ with owesPrompt := true }
  | edit drive name =>
    have hstarted := LineEditor.work_start st drive name
    simp only [follow]
    generalize LineEditor.start drive name st = result at hstarted
    exact .of_work_eq hstarted
  | basic =>
    have hstarted := Basic.Interpreter.work_start st
    simp only [follow]
    generalize Basic.Interpreter.start st = result at hstarted
    exact .of_work_eq hstarted

theorem grown_command (line : List Char) (budget : Nat) (s : Session) :
    Usage.Grown (s.executedByCommand line budget) (s.executedByCommand line budget) s.usage
      (s.command line budget).1.usage := by
  obtain ⟨⟨p, st⟩, n, i, w, o, m⟩ := s
  cases m with
  | commandLine =>
    have hobeyed : (CommandLine.execute line st).1.work = st.work :=
      CommandLine.work_execute st line
    have hfollowed := grown_follow
      ⟨⟨p, (CommandLine.execute line st).1⟩, n, i, w, o, .commandLine⟩
      (CommandLine.execute line st).2 budget
    exact (Usage.Grown.of_work_eq hobeyed).trans hfollowed
  | editor e =>
    have hhandled := LineEditor.work_handle st e line
    simp only [command]
    split
    case h_1 hresult =>
      rw [hresult] at hhandled
      exact .of_work_eq hhandled
    case h_2 hresult =>
      rw [hresult] at hhandled
      exact .of_work_eq ((work_printPrompt _).trans hhandled)
  | basic b =>
    have hhandled := Basic.Interpreter.work_handle st b budget line
    simp only [command]
    split
    case h_1 hresult =>
      rw [hresult] at hhandled
      exact .of_work_eq ((work_printPrompt _).trans hhandled)
    case h_2 hresult | h_3 hresult =>
      rw [hresult] at hhandled
      exact .of_work_eq hhandled
  | exited why => exact .of_work_eq rfl

theorem grown_enterLine (line : List Char) (budget : Nat) (s : Session) :
    Usage.Grown (s.executedByLine line budget) (s.executedByLine line budget) s.usage
      (s.enterLine line budget).1.usage := by
  have hobeyed := grown_command line budget s
  unfold enterLine executedByLine
  unfold executedByCommand at hobeyed
  cases hmode : s.mode with
  | editor e | basic b =>
    rw [hmode] at hobeyed
    exact hobeyed
  | exited why => exact .of_work_eq rfl
  | commandLine =>
    have hawaiting : (s.typeLine line).awaitingInput = s.awaitingInput := rfl
    dsimp only
    rw [hawaiting]
    split
    case isTrue => exact grown_resume budget (s.typeLine line)
    case isFalse => exact .of_work_eq rfl

/-- What an operation carries out gets into the counts, but for the instructions and cycles of a
single step. -/
theorem grown_perform (s : Session) {o : Operation} (h : o ≠ .takeUsage) :
    Usage.Grown (s.recorded o) (s.executed o) s.usage (s.perform o).usage := by
  cases o with
  | run entry budget =>
    have hbegun : (s.begun entry).usage.work = s.usage.work := by cases entry <;> rfl
    rw [perform, run_eq_resume]
    exact (Usage.Grown.of_work_eq hbegun).trans (grown_resume budget (s.begun entry))
  | step => exact grown_step s
  | command line budget => exact grown_command line budget s
  | enterLine line budget => exact grown_enterLine line budget s
  | reset => exact .of_work_eq (work_reset s)
  | load a bytes => exact .of_work_eq (work_load a bytes s)
  | assemble source origin => exact .of_work_eq (work_assemble source origin s)
  | type | typeLine | takeOutput | changeDisk | setRegisters => exact .of_work_eq rfl
  | takeUsage => exact absurd rfl h

/-- All charges of some kind in operations one after another. -/
def chargesIn (kind : Session → Operation → List Charge) (s : Session) :
    List Operation → List Charge
  | [] => []
  | o :: rest => kind s o ++ (s.perform o).chargesIn kind rest

theorem grown_after (s : Session) {operations : List Operation} (h : .takeUsage ∉ operations) :
    Usage.Grown (s.chargesIn recorded operations) (s.chargesIn executed operations) s.usage
      (s.after operations).usage := by
  induction operations generalizing s with
  | nil => exact .of_work_eq rfl
  | cons o rest ih =>
    have hfirst : o ≠ .takeUsage := (List.ne_of_not_mem_cons h).symm
    exact (grown_perform s hfirst).trans (ih (s.perform o) (List.not_mem_of_not_mem_cons h))

end Session

end Cpm80
