import Cpm80.Proofs.Isolation
import Cpm80.Proofs.OpenSessions

/-!
# Calls on a session

What a call does to a session comes to operations on it. So it leaves an open session open, with
the one exception of a command by which the session ends. That there is no such session is never
the answer of a call that is carried out.
-/
namespace Cpm80

/-! ## Calls as operations -/

namespace SessionCall

open Session (Operation)

/-- What a call does to a session, with the budget for what the user types and that of a run. -/
def operations (budget : Nat) (limited : Option Nat → Nat) : SessionCall → List Operation
  | view => [.takeOutput]
  | input line => [.enterLine line.toList budget, .takeOutput]
  | command line => [.command line.toList budget, .takeOutput]
  | load program address => [.load (address.getD CommandLine.programStart) program]
  | run start cycles => [.run start (limited cycles), .takeOutput]
  | step => [.step]
  | reset => [.reset]
  | memory _ _ => []
  | assemble source address =>
    [.assemble source.toList (address.getD CommandLine.programStart)]

/-- The call is a command by which the session ends. -/
def ends (s : Session) : SessionCall → Bool
  | command line => s.endsBy line.toList
  | _ => false

end SessionCall

namespace Server

variable {id : String} {budget : Nat} {limited : Option Nat → Nat} {c : SessionCall} {s : Session}

theorem callOn_fst (id : String) (budget : Nat) (limited : Option Nat → Nat) (c : SessionCall)
    (s : Session) : (callOn id budget limited c s).1 = s.after (c.operations budget limited) := by
  cases c with
  | view | input | command | run | step | reset => rfl
  | load program address =>
    have hperform : s.after (SessionCall.operations budget limited (.load program address)) =
        (s.load (address.getD CommandLine.programStart) program).1 := rfl
    rw [hperform, callOn]
    split
    case h_1 hl | h_2 hl => rw [hl]
  | memory address length =>
    simp only [callOn]
    split <;> rfl
  | assemble source address =>
    have hperform : s.after (SessionCall.operations budget limited (.assemble source address)) =
        (s.assemble source.toList (address.getD CommandLine.programStart)).1 := rfl
    rw [hperform, callOn]
    split
    case h_1 ha | h_2 ha => rw [ha]

/-- A call fails only because something is out of bounds. -/
theorem callOn_ne_noSession (id : String) (budget : Nat) (limited : Option Nat → Nat)
    (c : SessionCall) (s : Session) (other : String) :
    (callOn id budget limited c s).2 ≠ .error (.noSession other) := by
  cases c with
  | view | input | command | run | step | reset => nofun
  | load | memory | assemble =>
    simp only [callOn]
    split <;> nofun

/-- An open session is left open, unless it ends by the call. -/
theorem open_callOn (h : s.Open) (hends : c.ends s = false) :
    (callOn id budget limited c s).1.takeUsage.2.Open := by
  have hafter : (s.after (c.operations budget limited)).Open := by
    cases c with
    | view => exact h.perform (o := .takeOutput) rfl rfl
    | input line =>
      have hentered := h.enterLine line.toList budget
      exact hentered.perform (o := .takeOutput) rfl rfl
    | command line =>
      have hobeyed := h.command hends budget
      exact hobeyed.perform (o := .takeOutput) rfl rfl
    | load program address => exact h.perform (o := .load _ program) rfl rfl
    | run start cycles =>
      have hran := h.run start (limited cycles)
      exact hran.perform (o := .takeOutput) rfl rfl
    | step => exact h.perform (o := .step) rfl rfl
    | reset => exact h.perform (o := .reset) rfl rfl
    | memory => exact h
    | assemble source address => exact h.perform (o := .assemble source.toList _) rfl rfl
  rw [callOn_fst]
  exact hafter.perform (o := .takeUsage) rfl rfl

/-- A session that ends by the call has ended after it. -/
theorem hasExited_callOn (h : s.Open) (hends : c.ends s = true) :
    (callOn id budget limited c s).1.takeUsage.2.hasExited = true := by
  cases c with
  | command line => exact Session.hasExited_command h hends budget
  | view | input | load | run | step | reset | memory | assemble => cases hends

/-! ## Calls on the server -/

variable {t : Server} {now : Int} {freshId : String} {session : Session}

/-- Every session is open, and so will be a new one. -/
structure Sound (t : Server) : Prop where
  atLeast : 1 ≤ t.registry.driveCount
  atMost : t.registry.driveCount ≤ 16
  sessions : ∀ id session, t.registry.get? id = some session → session.Open

/-- The session of an identifier after a call. -/
def called (id : String) (c : SessionCall) (t : Server) (session : Session) : Session :=
  (callOn id (t.cycleBudget none) (fun n => t.cycleBudget n) c session).1.takeUsage.2

theorem registry_callSession_of_get? (hthere : t.registry.get? id = some session)
    (c : SessionCall) : (t.callSession now id c).1.registry =
      t.registry.put id (t.called id c session) now := by
  rw [callSession, hthere]
  rfl

/-- A call that names no session that is there fails, and that is all. -/
theorem perform_of_gone {c : Call} (hnamed : c.sessionId? = some id)
    (hgone : t.registry.get? id = none) :
    t.perform now freshId c = (t, .failed (.noSession id)) := by
  cases c with
  | create | list | metrics => cases hnamed
  | delete other =>
    cases hnamed
    rw [perform, hgone]
    rfl
  | session other c =>
    cases hnamed
    have hcall : t.callSession now id c = (t, .error (.noSession id)) := by
      rw [callSession, hgone]
    cases c with
    | command line => simp [perform, hcall, dropExited, hgone, Reply.ofResult]
    | _ => simp [perform, hcall, Reply.ofResult]

/-- Only a session that has ended is dropped. -/
theorem get?_dropExited (t : Server) (id other : String) :
    (t.dropExited id).registry.get? other =
      if id = other then (t.registry.get? id).filter fun s => !s.hasExited
      else t.registry.get? other := by
  have hremove : (t.remove id).registry.get? other =
      if id = other then none else t.registry.get? other := Registry.get?_remove _ _ _
  have hstays : t.registry.get? other =
      if id = other then t.registry.get? id else t.registry.get? other := by
    split
    case isTrue heq => rw [heq]
    case isFalse => rfl
  rw [dropExited]
  cases hthere : t.registry.get? id with
  | none => simpa [hthere] using hstays
  | some session =>
    cases hexited : session.hasExited with
    | true => simpa [Option.filter_some, hexited] using hremove
    | false => simpa [Option.filter_some, hexited, hthere] using hstays

/-- A call on a session that is there leaves the session behind, unless it ends by the call. -/
theorem get?_perform_session (h : t.Sound) (hthere : t.registry.get? id = some session)
    (c : SessionCall) (other : String) :
    (t.perform now freshId (.session id c)).1.registry.get? other =
      if id = other then if c.ends session then none else some (t.called id c session)
      else t.registry.get? other := by
  have hopen := h.sessions id session hthere
  have hput (key : String) : (t.callSession now id c).1.registry.get? key =
      if id = key then some (t.called id c session) else t.registry.get? key := by
    rw [registry_callSession_of_get? hthere, Registry.get?_put]
  cases c with
  | command line =>
    have hdrop : (t.perform now freshId (.session id (.command line))).1 =
        (t.callSession now id (.command line)).1.dropExited id := rfl
    rw [hdrop, get?_dropExited, hput id, hput other, if_pos rfl, Option.filter_some]
    cases hends : SessionCall.ends session (.command line) with
    | true =>
      have hexited : (t.called id (.command line) session).hasExited = true :=
        hasExited_callOn hopen hends
      split <;> simp [hexited]
    | false =>
      have hlasts : (t.called id (.command line) session).hasExited = false :=
        (open_callOn hopen hends).lasts
      split <;> simp [hlasts]
  | view | input | load | run | step | reset | memory | assemble => exact hput other

end Server

end Cpm80
