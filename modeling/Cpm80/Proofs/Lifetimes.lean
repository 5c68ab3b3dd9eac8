import Cpm80.Proofs.SessionCalls
import Cpm80.Proofs.Sweeps

/-!
# Lifetimes of sessions

A session lives from the request that creates it until it is deleted, a sweep finds it idle for
too long, or the user ends it at the command line with a command. What happens to a server tells
by itself which identifiers are live, and a call on a session is answered accordingly. How
requests are understood does not matter for this: one that is turned away changes nothing.
-/
namespace Cpm80

namespace Server

variable {s t : Server} {id : String} {now : Int} {freshId : String} {read : Reader}
  {r : Http.Request}

/-! ## Requests -/

/-- A request that makes a call is answered by it, and the counting touches no session. -/
theorem answer_of_ok {c : Call} (h : read r = .ok c) (s : Server) (now : Int) (freshId : String) :
    (s.perform now freshId c).1.SameSessions (s.answer read now freshId r).1 ∧
      (s.answer read now freshId r).2 = (s.perform now freshId c).2.response := by
  rw [answer, h]
  exact ⟨⟨rfl, rfl, rfl⟩, rfl⟩

/-- Any other request changes nothing. -/
theorem answer_of_error {response : Http.Response} (h : read r = .error response) (s : Server)
    (now : Int) (freshId : String) : s.answer read now freshId r = (s, response) := by
  rw [answer, h]

/-! ## What a call does to the sessions -/

/-- The call creates the session of the identifier. -/
def createdBy (freshId id : String) : Call → Bool
  | .create => freshId = id
  | _ => false

/-- The call ends the session of the identifier: it deletes it, or it is a command by which the
session ends. -/
def endedBy (s : Server) (id : String) : Call → Bool
  | .delete other => other = id
  | .session other c => other = id && (s.registry.get? id).any fun session => c.ends session
  | _ => false

theorem driveCount_perform (s : Server) (now : Int) (freshId : String) (c : Call) :
    (s.perform now freshId c).1.registry.driveCount = s.registry.driveCount := by
  cases c with
  | create | list | metrics => rfl
  | delete other =>
    rw [perform]
    split <;> rfl
  | session other c =>
    have hcall : (s.callSession now other c).1.registry.driveCount = s.registry.driveCount := by
      rw [callSession]
      split <;> rfl
    cases c with
    | command line =>
      simp only [perform, dropExited]
      split <;> exact hcall
    | view | input | load | run | step | reset | memory | assemble => exact hcall

theorem get?_perform_delete (s : Server) (now : Int) (freshId other id : String) :
    (s.perform now freshId (.delete other)).1.registry.get? id =
      if other = id then none else s.registry.get? id := by
  rw [perform]
  split
  case isTrue => exact Registry.get?_remove _ _ _
  case isFalse hgone =>
    split
    case isTrue heq => simpa [heq] using hgone
    case isFalse => rfl

theorem open_of_get?_create (h : s.Sound) {session : Session}
    (hsession : (s.registry.create freshId now).get? id = some session) : session.Open := by
  rw [Registry.get?_create] at hsession
  split at hsession
  case isFalse => exact h.sessions id session hsession
  case isTrue =>
    cases hsession
    apply Session.open_ofDrives
    · have hpos := h.atLeast
      intro hnil
      simp at hnil
      omega
    · rw [List.length_replicate]
      exact h.atMost

/-- A call leaves every session open that is left. -/
theorem Sound.perform (h : s.Sound) (c : Call) : (s.perform now freshId c).1.Sound where
  atLeast := driveCount_perform s now freshId c ▸ h.atLeast
  atMost := driveCount_perform s now freshId c ▸ h.atMost
  sessions := by
    intro id session hsession
    cases c with
    | list | metrics => exact h.sessions id session hsession
    | create => exact open_of_get?_create h hsession
    | delete other =>
      rw [get?_perform_delete] at hsession
      split at hsession
      case isTrue => cases hsession
      case isFalse => exact h.sessions id session hsession
    | session other c =>
      cases hthere : s.registry.get? other with
      | none =>
        rw [perform_of_gone rfl hthere] at hsession
        exact h.sessions id session hsession
      | some found =>
        rw [get?_perform_session h hthere] at hsession
        split at hsession
        case isFalse => exact h.sessions id session hsession
        case isTrue =>
          split at hsession
          case isTrue => cases hsession
          case isFalse hlasts =>
            cases hsession
            exact open_callOn (h.sessions other found hthere) (Bool.eq_false_iff.mpr hlasts)

/-- After a call the sessions live that it has created, and those that it has not ended. -/
theorem isLive_perform (h : s.Sound) (c : Call) (id : String) :
    (s.perform now freshId c).1.isLive id =
      (createdBy freshId id c || (s.isLive id && !s.endedBy id c)) := by
  cases c with
  | list | metrics => simp [perform, createdBy, endedBy]
  | create =>
    have hcreate : (s.perform now freshId .create).1.isLive id =
        ((s.registry.create freshId now).get? id).isSome := rfl
    rw [hcreate, Registry.get?_create]
    simp only [createdBy, endedBy]
    by_cases heq : freshId = id <;> simp [heq, isLive]
  | delete other =>
    rw [isLive, get?_perform_delete]
    simp only [createdBy, endedBy]
    by_cases heq : other = id <;> simp [heq, isLive]
  | session other c =>
    simp only [isLive, createdBy, endedBy]
    cases hthere : s.registry.get? other with
    | none =>
      rw [perform_of_gone rfl hthere]
      by_cases heq : other = id
      · simp [← heq, hthere]
      · simp [heq]
    | some found =>
      rw [get?_perform_session h hthere]
      by_cases heq : other = id
      · cases hends : c.ends found <;> simp [← heq, hthere, hends]
      · simp [heq]

/-! ## What happens to a server -/

/-- What happens to a server: a request arrives, or the idle sessions are swept out. -/
inductive Event
  | request (a : Arrival)
  | sweep (now : Int)

def occur (read : Reader) (s : Server) : Event → Server
  | .request a => (s.answer read a.now a.freshId a.request).1
  | .sweep now => (s.sweep now).1

def afterEvents (read : Reader) (s : Server) (events : List Event) : Server :=
  events.foldl (occur read) s

/-- The events, each with the server that it happens to. -/
def moments (read : Reader) : Server → List Event → List (Server × Event)
  | _, [] => []
  | s, e :: rest => (s, e) :: moments read (s.occur read e) rest

/-- The event creates the session of the identifier. -/
def creates (read : Reader) (id : String) : Server × Event → Bool
  | (_, .request a) => (read a.request).toOption.any fun c => createdBy a.freshId id c
  | (_, .sweep _) => false

/-- The event ends the session of the identifier, by a call or because the session has been idle
for too long. -/
def ends (read : Reader) (id : String) : Server × Event → Bool
  | (s, .request a) => (read a.request).toOption.any fun c => s.endedBy id c
  | (s, .sweep now) =>
    (s.registry.sessions.get? id).any fun e => isExpired e.2 now s.registry.timeout

theorem Sound.of_registry_eq (h : s.Sound) (heq : t.registry = s.registry) : t.Sound where
  atLeast := heq ▸ h.atLeast
  atMost := heq ▸ h.atMost
  sessions := heq ▸ h.sessions

theorem Sound.sweep (h : s.Sound) (now : Int) : (s.sweep now).1.Sound := by
  have hcount := (Registry.settings_removeAll (s.registry.expired now) s.registry).2
  have hswept : Sound { s with registry := s.registry.sweep now } := by
    refine ⟨hcount ▸ h.atLeast, hcount ▸ h.atMost, ?_⟩
    intro id session hsession
    rw [Registry.get?, Registry.get?_sweep] at hsession
    obtain ⟨e, he, rfl⟩ := Option.map_eq_some_iff.mp hsession
    apply h.sessions id
    rw [Registry.get?, (Option.filter_eq_some_iff.mp he).1, Option.map_some]
  exact hswept.of_registry_eq (registry_sweep s now)

theorem Sound.occur (h : s.Sound) (e : Event) : (s.occur read e).Sound := by
  cases e with
  | request a =>
    cases hcall : read a.request with
    | error response =>
      rw [Server.occur, answer_of_error hcall]
      exact h
    | ok c =>
      have hsame := (answer_of_ok hcall s a.now a.freshId).1
      exact (h.perform c).of_registry_eq hsame.registry
  | sweep now => exact h.sweep now

theorem isLive_occur (h : s.Sound) (e : Event) (id : String) :
    (s.occur read e).isLive id =
      (creates read id (s, e) || (s.isLive id && !ends read id (s, e))) := by
  cases e with
  | request a =>
    cases hcall : read a.request with
    | error response =>
      rw [Server.occur, answer_of_error hcall]
      simp [creates, ends, hcall, Except.toOption]
    | ok c =>
      have hlive : (s.occur read (.request a)).isLive id =
          (s.perform a.now a.freshId c).1.isLive id := by
        rw [isLive, isLive, ← (answer_of_ok hcall s a.now a.freshId).1.registry]
        rfl
      rw [hlive, isLive_perform h]
      simp [creates, ends, hcall, Except.toOption]
  | sweep now =>
    rw [isLive, Server.occur, registry_sweep, Registry.get?, Registry.get?_sweep]
    simp only [creates, ends, isLive, Registry.get?]
    cases s.registry.sessions.get? id with
    | none => rfl
    | some e => cases hexpired : isExpired e.2 now s.registry.timeout <;>
        simp [Option.filter_some, hexpired]

/-- The session has been created, and nothing that happened later has ended it. -/
def LivesSince (read : Reader) (id : String) (log : List (Server × Event)) : Prop :=
  ∃ before m later, log = before ++ m :: later ∧ creates read id m = true ∧
    ∀ n ∈ later, ends read id n = false

theorem livesSince_cons_iff {m : Server × Event} {log : List (Server × Event)} :
    LivesSince read id (m :: log) ↔
      LivesSince read id log ∨ (creates read id m = true ∧ ∀ n ∈ log, ends read id n = false) := by
  constructor
  · rintro ⟨before, first, later, heq, hcreates, hlasts⟩
    cases before with
    | nil =>
      cases heq
      exact .inr ⟨hcreates, hlasts⟩
    | cons _ rest =>
      cases heq
      exact .inl ⟨rest, first, later, rfl, hcreates, hlasts⟩
  · rintro (⟨before, first, later, rfl, hcreates, hlasts⟩ | ⟨hcreates, hlasts⟩)
    · exact ⟨m :: before, first, later, rfl, hcreates, hlasts⟩
    · exact ⟨[], m, log, rfl, hcreates, hlasts⟩

/-- After all that has happened the sessions live that have been created and not ended since, and
those that were there before and have not been ended. -/
theorem isLive_afterEvents_iff (h : s.Sound) (events : List Event) (id : String) :
    (s.afterEvents read events).isLive id = true ↔
      LivesSince read id (s.moments read events) ∨
        (s.isLive id = true ∧ ∀ n ∈ s.moments read events, ends read id n = false) := by
  induction events generalizing s with
  | nil =>
    have hnone : ¬LivesSince read id [] := by
      rintro ⟨before, m, later, heq, -⟩
      simp at heq
    simp [afterEvents, moments, hnone]
  | cons e rest ih =>
    have hrest : s.afterEvents read (e :: rest) = (s.occur read e).afterEvents read rest := rfl
    rw [hrest, ih (h.occur e), moments, livesSince_cons_iff, isLive_occur h, List.forall_mem_cons]
    cases creates read id (s, e) <;> cases s.isLive id <;> cases ends read id (s, e) <;> simp

theorem Sound.afterEvents (h : s.Sound) (events : List Event) :
    (s.afterEvents read events).Sound := by
  induction events generalizing s with
  | nil => exact h
  | cons e rest ih => exact ih (h.occur e)

/-! ### Events are works -/

/-- What an event does to the sessions comes to works. -/
theorem exists_works_occur (read : Reader) (s : Server) (e : Event) :
    ∃ works, (s.afterUpkeep works).SameSessions (s.occur read e) := by
  cases e with
  | sweep now => exact ⟨[.sweep now], rfl, rfl, rfl⟩
  | request a =>
    cases hcall : read a.request with
    | error response =>
      rw [Server.occur, answer_of_error hcall]
      exact ⟨[], rfl, rfl, rfl⟩
    | ok c =>
      obtain ⟨works, hworks⟩ := exists_works_perform s a.now a.freshId c
      exact ⟨works, hworks.trans (answer_of_ok hcall s a.now a.freshId).1⟩

theorem exists_works_afterEvents (read : Reader) (s : Server) (events : List Event) :
    ∃ works, (s.afterUpkeep works).SameSessions (s.afterEvents read events) := by
  induction events generalizing s with
  | nil => exact ⟨[], rfl, rfl, rfl⟩
  | cons e rest ih =>
    obtain ⟨works, hworks⟩ := exists_works_occur read s e
    obtain ⟨later, hlater⟩ := ih (s.occur read e)
    refine ⟨works ++ later, ?_⟩
    have happend : s.afterUpkeep (works ++ later) = (s.afterUpkeep works).afterUpkeep later :=
      List.foldl_append
    rw [happend]
    exact (hworks.afterUpkeep later).trans hlater

/-- The metrics of a server always show how many sessions there are. -/
theorem active_afterEvents (h : s.metrics.active = s.registry.size) (events : List Event) :
    (s.afterEvents read events).metrics.active = (s.afterEvents read events).registry.size := by
  obtain ⟨works, hworks⟩ := exists_works_afterEvents read s events
  rw [hworks.active, hworks.registry]
  exact active_afterUpkeep h works

/-! ## Answers -/

theorem status_ofResult {result : Except ServerError Json}
    (h : ∀ other, result ≠ .error (.noSession other)) :
    (Reply.ofResult result).response.status ≠ 404 := by
  cases result with
  | ok value => simp [Reply.ofResult, Reply.response]
  | error e =>
    cases e with
    | noSession other => exact absurd rfl (h other)
    | outOfBounds e => simp [Reply.ofResult, Reply.response, ServerError.status]

/-- A call on a session that is there is not answered as if it were not. -/
theorem status_of_live {c : Call} (hnamed : c.sessionId? = some id) (hlive : s.isLive id = true) :
    (s.perform now freshId c).2.response.status ≠ 404 := by
  cases c with
  | create | list | metrics => cases hnamed
  | delete other =>
    cases hnamed
    rw [isLive] at hlive
    simp [perform, hlive, Reply.response]
  | session other c =>
    cases hnamed
    obtain ⟨session, hthere⟩ := Option.isSome_iff_exists.mp hlive
    have hresult : ∀ other, (s.callSession now id c).2 ≠ .error (.noSession other) := by
      rw [callSession, hthere]
      exact callOn_ne_noSession id _ _ c session
    cases c with
    | command line => exact status_ofResult hresult
    | view | input | load | run | step | reset | memory | assemble =>
      exact status_ofResult hresult

theorem sound_start (driveCount : Nat) (onHost : Bool) (timeout : Int)
    (maxCycles cycleCeiling : Nat) : Sound
      { registry := .start driveCount onHost timeout, maxCycles, cycleCeiling } where
  atLeast := by
    simp only [Registry.start]
    omega
  atMost := Nat.min_le_right _ _
  sessions := nofun

theorem endsBy_of_modeName {session : Session} (h : session.modeName ∈ ["editor", "basic"])
    (line : List Char) : session.endsBy line = false := by
  cases hmode : session.mode with
  | commandLine => simp [Session.modeName, hmode] at h
  | editor | basic | exited => simp [Session.endsBy, Session.isAtCommandLine, hmode]

/-- Whatever happens to a server that starts without sessions, and however its requests are
understood, the identifiers that are live are those whose session has been created and since then
neither been deleted nor swept out nor been ended by a command at the command line. No session
that lives has ended. A call on a session that does not live fails as not found and touches no
session, a call on one that lives does not fail so. A line for the editor or for BASIC never ends
the session. -/
theorem session_lifetimes (read : Reader) (driveCount : Nat) (onHost : Bool) (timeout : Int)
    (maxCycles cycleCeiling : Nat) (events : List Event) :
    let s : Server := { registry := .start driveCount onHost timeout, maxCycles, cycleCeiling }
    let t := s.afterEvents read events
    (∀ id, t.isLive id = true ↔ LivesSince read id (s.moments read events)) ∧
    (∀ id session, t.registry.get? id = some session → session.hasExited = false) ∧
    (∀ (a : Arrival) c id, read a.request = .ok c → c.sessionId? = some id →
      let answer := t.answer read a.now a.freshId a.request
      (t.isLive id = false → answer.2.status = 404 ∧ answer.1.registry = t.registry) ∧
        (t.isLive id = true → answer.2.status ≠ 404)) ∧
    ∀ (a : Arrival) id session line, t.registry.get? id = some session →
      session.modeName ∈ ["editor", "basic"] →
      read a.request = .ok (.session id (.command line)) ∨
        read a.request = .ok (.session id (.input line)) →
      (t.occur read (.request a)).isLive id = true := by
  intro s t
  have hstart : s.Sound := sound_start driveCount onHost timeout maxCycles cycleCeiling
  have hsound : t.Sound := hstart.afterEvents events
  refine ⟨fun id => ?_, fun id session hthere => ?_, fun a c id hcall hnamed => ?_, ?_⟩
  · have hnone : s.isLive id = false := rfl
    rw [isLive_afterEvents_iff hstart, hnone]
    simp
  · exact (hsound.sessions id session hthere).lasts
  · intro answer
    obtain ⟨hsame, hresponse⟩ := answer_of_ok hcall t a.now a.freshId
    rw [hsame.registry, hresponse]
    constructor
    · intro hgone
      have hnothing : t.registry.get? id = none := by simpa [isLive] using hgone
      rw [perform_of_gone hnamed hnothing]
      exact ⟨rfl, rfl⟩
    · exact status_of_live hnamed
  · intro a id session line hthere hmode hcall
    have hlive : t.isLive id = true := isLive_of_get? hthere
    have hends : ends read id (t, .request a) = false := by
      have hstays := endsBy_of_modeName hmode line.toList
      rcases hcall with hcall | hcall <;>
        simp [ends, hcall, endedBy, hthere, SessionCall.ends, hstays, Except.toOption]
    rw [isLive_occur hsound, hlive, hends]
    simp

/-- One session is left in the editor and then at the command line; the editor of the other is
quit only. -/
def twoEditors : List Event :=
  [.request ⟨0, "a", posting "" ""⟩, .request ⟨1, "b", posting "" ""⟩,
    .request ⟨2, "c", posting "/a/command" "ED"⟩, .request ⟨3, "c", posting "/b/command" "ED"⟩,
    .request ⟨4, "c", posting "/a/command" "QUIT"⟩, .request ⟨5, "c", posting "/b/input" "QUIT"⟩,
    .request ⟨6, "c", posting "/a/command" "quit now"⟩, .sweep 10]

theorem session_lifetimes_twoEditors :
    let s : Server := { registry := .start 1 false 5, maxCycles := 10, cycleCeiling := 10 }
    let log := s.moments Http.Request.call twoEditors
    LivesSince Http.Request.call "b" log ∧ ¬LivesSince Http.Request.call "a" log ∧
      ((s.afterEvents Http.Request.call twoEditors).handle 11 "c"
        (posting "/a/input" "DIR")).2.status = 404 := by
  intro s log
  have hlives : (s.afterEvents Http.Request.call twoEditors).isLive "b" = true ∧
      (s.afterEvents Http.Request.call twoEditors).isLive "a" = false := by decide +kernel
  have hnamed : (posting "/a/input" "DIR").call.toOption.bind Call.sessionId? = some "a" := by
    decide +kernel
  obtain ⟨hlive, -, hanswer, -⟩ := session_lifetimes Http.Request.call 1 false 5 10 10 twoEditors
  refine ⟨(hlive "b").mp hlives.1, ?_, ?_⟩
  · rw [← hlive "a"]
    exact Bool.eq_false_iff.mp hlives.2
  · cases hcall : (posting "/a/input" "DIR").call with
    | error response => simp [hcall, Except.toOption] at hnamed
    | ok c =>
      have hc : c.sessionId? = some "a" := by simpa [hcall, Except.toOption] using hnamed
      exact ((hanswer ⟨11, "c", _⟩ c "a" hcall hc).1 hlives.2).1

end Server

end Cpm80
