import Cpm80.Proofs.Charges
import Cpm80.Proofs.Lifetimes

/-!
# The usage that a server shows

A server adds up what its sessions have used, request by request, and no session keeps anything
that has not been added. So nothing that the sessions record is lost, whatever becomes of them
later, and each system call is counted once. A single step is the one thing that costs
instructions and cycles without their being recorded.
-/
namespace Cpm80.Server

variable {s : Server} {id : String} {now : Int} {freshId : String} {read : Reader}

/-- What sessions have used has been taken over. -/
def Settled (s : Server) : Prop :=
  ∀ id session, s.registry.get? id = some session → session.usage = .none

theorem Settled.of_registry_eq {t : Server} (h : s.Settled) (heq : t.registry = s.registry) :
    t.Settled := by
  intro id session hsession
  rw [heq] at hsession
  exact h id session hsession

/-- All charges of some kind in a call on the session of an identifier. -/
def chargesOn (kind : Session → Session.Operation → List Charge) (s : Server) (id : String)
    (c : SessionCall) : List Charge :=
  match s.registry.get? id with
  | some session =>
    session.chargesIn kind (c.operations (s.cycleBudget none) fun n => s.cycleBudget n)
  | none => []

/-- All charges of some kind in a call. -/
def chargesOfCall (kind : Session → Session.Operation → List Charge) (s : Server) :
    Call → List Charge
  | .session id c => s.chargesOn kind id c
  | .create | .list | .metrics | .delete _ => []

/-- All charges of some kind in an event. -/
def chargesOf (read : Reader) (kind : Session → Session.Operation → List Charge) :
    Server × Event → List Charge
  | (s, .request a) => ((read a.request).toOption.map fun c => s.chargesOfCall kind c).getD []
  | (_, .sweep _) => []

/-- What the processors of the sessions carry out in an event. -/
def executed (read : Reader) : Server × Event → List Charge :=
  chargesOf read Session.executed

/-- What of it gets into the counts of instructions and cycles. -/
def recorded (read : Reader) : Server × Event → List Charge :=
  chargesOf read Session.recorded

/-! ## Calls -/

theorem takeUsage_not_mem_operations (budget : Nat) (limited : Option Nat → Nat)
    (c : SessionCall) : .takeUsage ∉ c.operations budget limited := by
  cases c <;> simp [SessionCall.operations]

theorem usage_ofDrives (drives : List Drive) : (Session.ofDrives drives).usage = .none := by
  unfold Session.ofDrives Session.printPrompt
  dsimp only
  split <;> rfl

theorem Settled.remove (h : s.Settled) (id : String) : (s.remove id).Settled := by
  intro other session hsession
  have hgone : (s.remove id).registry.get? other =
      if id = other then none else s.registry.get? other := Registry.get?_remove _ _ _
  rw [hgone] at hsession
  split at hsession
  case isTrue => cases hsession
  case isFalse => exact h other session hsession

theorem settled_callSession (h : s.Settled) (c : SessionCall) :
    (s.callSession now id c).1.Settled := by
  cases hthere : s.registry.get? id with
  | none =>
    rw [callSession, hthere]
    exact h
  | some session =>
    intro other found hfound
    rw [registry_callSession_of_get? hthere, Registry.get?_put] at hfound
    split at hfound
    case isTrue =>
      cases hfound
      rfl
    case isFalse => exact h other found hfound

/-- What a call on a session has used is added to what the server shows. -/
theorem grown_callSession (h : s.Settled) (c : SessionCall) :
    Usage.Grown (s.chargesOn Session.recorded id c) (s.chargesOn Session.executed id c)
      s.metrics.usage (s.callSession now id c).1.metrics.usage := by
  unfold chargesOn
  cases hthere : s.registry.get? id with
  | none =>
    rw [callSession, hthere]
    exact .of_work_eq rfl
  | some session =>
    have hused := Session.grown_after session (takeUsage_not_mem_operations
      (s.cycleBudget none) (fun n => s.cycleBudget n) c)
    rw [h id session hthere, ← callOn_fst id] at hused
    rw [callSession, hthere]
    exact hused.add s.metrics.usage

theorem dropExited_keeps (h : s.Settled) (id : String) :
    (s.dropExited id).Settled ∧ (s.dropExited id).metrics.usage = s.metrics.usage := by
  unfold dropExited
  split
  case isTrue => exact ⟨h.remove id, rfl⟩
  case isFalse => exact ⟨h, rfl⟩

theorem Settled.grown_perform (h : s.Settled) (now : Int) (freshId : String) (c : Call) :
    (s.perform now freshId c).1.Settled ∧
      Usage.Grown (s.chargesOfCall Session.recorded c) (s.chargesOfCall Session.executed c)
        s.metrics.usage (s.perform now freshId c).1.metrics.usage := by
  cases c with
  | list | metrics => exact ⟨h, .of_work_eq rfl⟩
  | create =>
    refine ⟨?_, .of_work_eq rfl⟩
    intro id session hsession
    have hcreated : (s.perform now freshId .create).1.registry.get? id =
        (s.registry.create freshId now).get? id := rfl
    rw [hcreated, Registry.get?_create] at hsession
    split at hsession
    case isTrue =>
      cases hsession
      exact usage_ofDrives _
    case isFalse => exact h id session hsession
  | delete id =>
    simp only [perform]
    split
    case isTrue => exact ⟨h.remove id, .of_work_eq rfl⟩
    case isFalse => exact ⟨h, .of_work_eq rfl⟩
  | session id c =>
    have hsettled : (s.callSession now id c).1.Settled := settled_callSession h c
    have hgrown : Usage.Grown (s.chargesOn Session.recorded id c)
        (s.chargesOn Session.executed id c) s.metrics.usage
        (s.callSession now id c).1.metrics.usage := grown_callSession h c
    cases c with
    | command line =>
      obtain ⟨hdropped, hsame⟩ := dropExited_keeps hsettled id
      exact ⟨hdropped, hgrown.trans_work (congrArg Usage.work hsame)⟩
    | view | input | load | run | step | reset | memory | assemble => exact ⟨hsettled, hgrown⟩

/-! ## Events -/

/-- The counting of a request is no usage. -/
theorem usage_answer_of_ok {r : Http.Request} {c : Call} (hcall : read r = .ok c)
    (s : Server) (now : Int) (freshId : String) :
    (s.answer read now freshId r).1.metrics.usage = (s.perform now freshId c).1.metrics.usage := by
  rw [answer, hcall]
  rfl

theorem usage_sweep (s : Server) (now : Int) :
    (s.sweep now).1.metrics.usage = s.metrics.usage := by
  unfold sweep
  dsimp only
  split <;> rfl

theorem Settled.sweep (h : s.Settled) (now : Int) : (s.sweep now).1.Settled := by
  intro id session hsession
  rw [registry_sweep, Registry.get?, Registry.get?_sweep] at hsession
  obtain ⟨e, he, rfl⟩ := Option.map_eq_some_iff.mp hsession
  apply h id
  rw [Registry.get?, (Option.filter_eq_some_iff.mp he).1, Option.map_some]

theorem grown_occur (h : s.Settled) (e : Event) :
    (s.occur read e).Settled ∧
      Usage.Grown (recorded read (s, e)) (executed read (s, e)) s.metrics.usage
        (s.occur read e).metrics.usage := by
  cases e with
  | sweep now => exact ⟨h.sweep now, .of_work_eq (congrArg Usage.work (usage_sweep s now))⟩
  | request a =>
    simp only [recorded, executed, chargesOf, occur]
    cases hcall : read a.request with
    | error response =>
      rw [answer_of_error hcall]
      exact ⟨h, .of_work_eq rfl⟩
    | ok c =>
      obtain ⟨hsettled, hgrown⟩ := h.grown_perform a.now a.freshId c
      have hsame := (answer_of_ok hcall s a.now a.freshId).1
      rw [usage_answer_of_ok hcall]
      exact ⟨hsettled.of_registry_eq hsame.registry, hgrown⟩

theorem grown_afterEvents (h : s.Settled) (events : List Event) :
    (s.afterEvents read events).Settled ∧
      Usage.Grown ((s.moments read events).flatMap (recorded read))
        ((s.moments read events).flatMap (executed read)) s.metrics.usage
        (s.afterEvents read events).metrics.usage := by
  induction events generalizing s with
  | nil => exact ⟨h, .of_work_eq rfl⟩
  | cons e rest ih =>
    obtain ⟨hsettled, hfirst⟩ := grown_occur h e
    obtain ⟨hend, hrest⟩ := ih hsettled
    exact ⟨hend, hfirst.trans hrest⟩

/-! ## What is recorded -/

/-- The call asks for a single step of a session. -/
def asksForStep : Call → Bool
  | .session _ .step => true
  | _ => false

def Event.isStep (read : Reader) : Event → Bool
  | .request a => (read a.request).toOption.any asksForStep
  | .sweep _ => false

theorem chargesIn_recorded {session : Session} {operations : List Session.Operation}
    (h : .step ∉ operations) :
    session.chargesIn Session.recorded operations =
      session.chargesIn Session.executed operations := by
  induction operations generalizing session with
  | nil => rfl
  | cons o rest ih =>
    have hfirst : session.recorded o = session.executed o := by
      cases o with
      | step => exact absurd List.mem_cons_self h
      | _ => rfl
    rw [Session.chargesIn, Session.chargesIn, hfirst, ih (List.not_mem_of_not_mem_cons h)]

theorem chargesOn_recorded (s : Server) (id : String) {c : SessionCall} (h : c ≠ .step) :
    s.chargesOn Session.recorded id c = s.chargesOn Session.executed id c := by
  unfold chargesOn
  split
  case h_1 session hthere =>
    apply chargesIn_recorded
    cases c with
    | step => exact absurd rfl h
    | _ => simp [SessionCall.operations]
  case h_2 => rfl

theorem chargesOn_step (s : Server) (id : String) :
    s.chargesOn Session.recorded id .step = [] := by
  unfold chargesOn
  split <;> rfl

theorem chargesOfCall_recorded (s : Server) (c : Call) :
    s.chargesOfCall Session.recorded c =
      if asksForStep c then [] else s.chargesOfCall Session.executed c := by
  cases c with
  | create | list | metrics | delete => rfl
  | session id c =>
    cases c with
    | step => exact chargesOn_step s id
    | view | input | command | load | run | reset | memory | assemble =>
      exact chargesOn_recorded s id (by simp)

/-- All that is carried out is recorded, except in a step. -/
theorem recorded_eq (read : Reader) (m : Server × Event) :
    recorded read m = if m.2.isStep read then [] else executed read m := by
  obtain ⟨s, e⟩ := m
  cases e with
  | sweep now => rfl
  | request a =>
    have hstep : (s, Event.request a).2.isStep read =
        (read a.request).toOption.any asksForStep := rfl
    rw [hstep]
    unfold recorded executed chargesOf
    dsimp only
    cases read a.request with
    | error response => rfl
    | ok c => exact chargesOfCall_recorded s c

/-- Whatever happens to a server from some moment on, and however its requests are understood, what
it shows grows by what is carried out meanwhile in all sessions together, those that are reset or
removed included: the system calls, of each function and of all functions, by those that have been
completed, the instructions and cycles by all except those of single steps. -/
theorem usage_grows (read : Reader) (driveCount : Nat) (onHost : Bool) (timeout : Int)
    (maxCycles cycleCeiling : Nat) (metrics : Metrics) (earlier later : List Event) :
    let start : Server :=
      { registry := .start driveCount onHost timeout, metrics, maxCycles, cycleCeiling }
    let s := start.afterEvents read earlier
    let before := s.metrics.usage
    let after := (s.afterEvents read later).metrics.usage
    let log := s.moments read later
    let counted := log.flatMap fun m => if m.2.isStep read then [] else executed read m
    after.instructions = before.instructions + counted.length ∧
      after.cycles = before.cycles + Charge.cycles counted ∧
      ∀ p, after.callsTo p =
        before.callsTo p + Charge.callsTo p (log.flatMap (executed read)) := by
  intro start s before after log counted
  have hstart : start.Settled := by
    intro id session hsession
    have hnone : start.registry.get? id = none := rfl
    rw [hnone] at hsession
    cases hsession
  obtain ⟨hsettled, -⟩ := grown_afterEvents hstart earlier
  obtain ⟨-, hgrown⟩ := grown_afterEvents hsettled later
  have hcounted : log.flatMap (recorded read) = counted :=
    congrArg (List.flatMap · log) (funext (recorded_eq read))
  rw [hcounted] at hgrown
  exact ⟨hgrown.instructions, hgrown.cycles, hgrown.calls⟩

/-- A session is created, and its processor goes one step. -/
def steppedOnce : List Event :=
  [.request ⟨0, "a", posting "" ""⟩, .request ⟨1, "b", posting "/a/step" ""⟩]

/-- The step executes the halt at the warm boot, for seven cycles, and no count tells of it. -/
theorem not_usage_grows_by_executed :
    let s : Server := { registry := .start 1 false 5, maxCycles := 10, cycleCeiling := 10 }
    let t := s.afterEvents Http.Request.call steppedOnce
    (s.moments Http.Request.call steppedOnce).flatMap (executed Http.Request.call) =
        [⟨7, none⟩] ∧
      t.metrics.usage.instructions = s.metrics.usage.instructions ∧
      t.metrics.usage.cycles = s.metrics.usage.cycles := by
  decide +kernel

end Cpm80.Server
