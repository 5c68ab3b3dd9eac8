import Cpm80.Proofs.Reopening
import Cpm80.Proofs.SessionCalls

/-!
# Sweeps

What is done with the sessions as such is to create them, to ask for them, to remove them and to
sweep out the ones that have been idle for too long. A log of this tells when each session was
last used, and a sweep goes by just that. The same log accounts for the number of the sessions:
none comes or goes but by a work that the log shows, and the metrics keep up with it.
-/
namespace Cpm80

namespace SortedMap

variable {α β : Type} [LT α] [DecidableEq α] {m : SortedMap α β} {k : α} {x : β}

theorem get?_eq_some_iff [KeyOrder α] : m.get? k = some x ↔ (k, x) ∈ m.entries :=
  ⟨mem_of_get?, get?_of_mem⟩

variable [DecidableLT α]

theorem length_placed {entries : List (α × β)} (h : find? k entries = none) (x : β) :
    (placed k x entries).length = entries.length + 1 := by
  induction entries with
  | nil => rfl
  | cons e rest ih =>
    simp only [find?] at h
    split at h
    case isTrue => cases h
    case isFalse hne =>
      simp only [placed, if_neg hne]
      split
      case isTrue => rfl
      case isFalse => simp [ih h]

variable [KeyOrder α]

theorem size_insert (h : m.get? k = none) (x : β) : (m.insert k x).size = m.size + 1 :=
  length_placed h x

/-- A new value under an old key is no new entry. -/
theorem size_insert_of_contains (h : m.contains k = true) (x : β) :
    (m.insert k x).size = m.size := by
  have hkeys : (m.insert k x).keys = m.keys := by
    apply keys_eq_of_contains
    intro l
    rw [contains, contains, get?_insert]
    split
    case isTrue heq => exact heq ▸ h.symm
    case isFalse => rfl
  simpa [keys, size] using congrArg List.length hkeys

theorem size_erase (h : m.get? k = some x) : (m.erase k).size + 1 = m.size := by
  have hgone : (m.erase k).get? k = none := by rw [get?_erase, if_pos rfl]
  have hback : (m.erase k).insert k x = m := by
    apply ext_get?
    intro l
    rw [get?_insert, get?_erase]
    split
    case isTrue heq => rw [← heq, h]
    case isFalse => rfl
  rw [← size_insert hgone x, hback]

end SortedMap

/-! ## What a sweep drops -/

namespace Registry

variable {r : Registry} {id : String} {now : Int}

theorem mem_expired_iff : id ∈ r.expired now ↔
    ∃ e ∈ r.sessions.entries, e.1 = id ∧ isExpired e.2.2 now r.timeout = true := by
  simp only [expired, list, List.mem_map, List.mem_filter]
  constructor
  · rintro ⟨info, ⟨⟨e, hmem, rfl⟩, hexpired⟩, rfl⟩
    exact ⟨e, hmem, rfl, hexpired⟩
  · rintro ⟨e, hmem, rfl, hexpired⟩
    exact ⟨_, ⟨⟨e, hmem, rfl⟩, hexpired⟩, rfl⟩

theorem entries_removeAll (ids : List String) (r : Registry) :
    (ids.foldl (fun r id => r.remove id) r).sessions.entries =
      r.sessions.entries.filter fun e => e.1 ∉ ids := by
  induction ids generalizing r with
  | nil => simp
  | cons id rest ih =>
    have hfirst : (r.remove id).sessions.entries = r.sessions.entries.filter (·.1 ≠ id) := rfl
    rw [List.foldl_cons, ih, hfirst, List.filter_filter]
    apply List.filter_congr
    intro e _
    simp [Bool.and_comm]

/-- A sweep keeps the entries that are not expired. -/
theorem entries_sweep (r : Registry) (now : Int) : (r.sweep now).sessions.entries =
    r.sessions.entries.filter fun e => !isExpired e.2.2 now r.timeout := by
  rw [sweep, entries_removeAll]
  apply List.filter_congr
  rintro ⟨id, session, used⟩ hmem
  have hexpired : id ∈ r.expired now ↔ isExpired used now r.timeout = true := by
    rw [mem_expired_iff]
    constructor
    · rintro ⟨⟨_, found⟩, hfound, rfl, hexpired⟩
      obtain rfl : (session, used) = found := Option.some.inj
        ((SortedMap.get?_of_mem hmem).symm.trans (SortedMap.get?_of_mem hfound))
      exact hexpired
    · intro hexpired
      exact ⟨_, hmem, rfl, hexpired⟩
  simp [hexpired]

theorem get?_sweep (r : Registry) (now : Int) (id : String) : (r.sweep now).sessions.get? id =
    (r.sessions.get? id).filter fun e => !isExpired e.2 now r.timeout := by
  apply Option.ext
  intro e
  rw [SortedMap.get?_eq_some_iff, entries_sweep, List.mem_filter, ← SortedMap.get?_eq_some_iff,
    Option.filter_eq_some_iff]

theorem length_expired (r : Registry) (now : Int) : (r.expired now).length =
    r.sessions.entries.countP fun e => isExpired e.2.2 now r.timeout := by
  simp [expired, list, List.countP_eq_length_filter, List.filter_map, Function.comp_def]

theorem size_sweep (r : Registry) (now : Int) :
    (r.sweep now).size + (r.expired now).length = r.size := by
  rw [length_expired, size, size, SortedMap.size, SortedMap.size, entries_sweep,
    ← List.countP_eq_length_filter, Nat.add_comm]
  simpa using (List.length_eq_countP_add_countP _).symm

theorem settings_removeAll (ids : List String) (r : Registry) :
    (ids.foldl (fun r id => r.remove id) r).timeout = r.timeout ∧
      (ids.foldl (fun r id => r.remove id) r).driveCount = r.driveCount := by
  induction ids generalizing r with
  | nil => exact ⟨rfl, rfl⟩
  | cons id rest ih => exact ih (r.remove id)

end Registry

/-! ## Works -/

/-- What is done with the sessions of a server as such. Whoever asks for a session does something
with it. -/
inductive Upkeep
  | create (id : String) (now : Int)
  | get (id : String) (now : Int) (change : Session → Session)
  | remove (id : String)
  | sweep (now : Int)

namespace Server

variable {s t : Server} {id : String} {now : Int} {w : Upkeep} {log : List (Server × Upkeep)}

def isLive (id : String) (s : Server) : Bool :=
  (s.registry.get? id).isSome

/-- Looks a session up, which is a use of it. -/
def get (id : String) (now : Int) (change : Session → Session) (s : Server) : Server :=
  match s.registry.get? id with
  | none => s
  | some session => { s with registry := s.registry.put id (change session) now }

/-- Does a work. A session that is not there is neither used nor removed. -/
def upkeep (w : Upkeep) (s : Server) : Server :=
  match w with
  | .create id now => { s with registry := s.registry.create id now }.countActive
  | .get id now change => s.get id now change
  | .remove id => if s.isLive id then s.remove id else s
  | .sweep now => (s.sweep now).1

def afterUpkeep (s : Server) (works : List Upkeep) : Server :=
  works.foldl (fun s w => s.upkeep w) s

/-- The log of works: each with the server that it is done on. -/
def logOf : Server → List Upkeep → List (Server × Upkeep)
  | _, [] => []
  | s, w :: rest => (s, w) :: logOf (s.upkeep w) rest

/-! ### Calls are works -/

/-- The servers have the same sessions, and the metrics say the same about them. -/
structure SameSessions (s t : Server) : Prop where
  registry : t.registry = s.registry
  expired : t.metrics.expired = s.metrics.expired
  active : t.metrics.active = s.metrics.active

theorem SameSessions.trans {u : Server} (h : s.SameSessions t) (h' : t.SameSessions u) :
    s.SameSessions u :=
  ⟨h'.registry.trans h.registry, h'.expired.trans h.expired, h'.active.trans h.active⟩

theorem SameSessions.upkeep (h : s.SameSessions t) (w : Upkeep) :
    (s.upkeep w).SameSessions (t.upkeep w) := by
  have hregistry := h.registry
  cases w with
  | create id now =>
    simp only [Server.upkeep, hregistry]
    exact ⟨rfl, h.expired, rfl⟩
  | get id now change =>
    simp only [Server.upkeep, get, hregistry]
    cases s.registry.get? id with
    | none => exact h
    | some session => exact ⟨rfl, h.expired, h.active⟩
  | remove id =>
    have hsame : t.isLive id = s.isLive id := by rw [isLive, isLive, hregistry]
    simp only [Server.upkeep, remove, hsame, hregistry]
    cases s.isLive id with
    | true => exact ⟨rfl, h.expired, rfl⟩
    | false => exact h
  | sweep now =>
    simp only [Server.upkeep, sweep, hregistry]
    by_cases hnone : (s.registry.expired now).length = 0
    · rw [if_pos hnone, if_pos hnone]
      exact h
    · rw [if_neg hnone, if_neg hnone]
      exact ⟨rfl, congrArg (· + _) h.expired, rfl⟩

theorem SameSessions.afterUpkeep (h : s.SameSessions t) (works : List Upkeep) :
    (s.afterUpkeep works).SameSessions (t.afterUpkeep works) := by
  induction works generalizing s t with
  | nil => exact h
  | cons w rest ih => exact ih (h.upkeep w)

theorem upkeep_remove (s : Server) (id freshId : String) (now : Int) :
    s.upkeep (.remove id) = (s.perform now freshId (.delete id)).1 := by
  rw [upkeep, perform, isLive]
  split <;> rfl

/-- A call on a session asks for it. -/
theorem sameSessions_callSession (s : Server) (now : Int) (id : String) (c : SessionCall) :
    (s.upkeep (.get id now (s.called id c))).SameSessions (s.callSession now id c).1 := by
  rw [upkeep, get, callSession]
  cases s.registry.get? id with
  | none => exact ⟨rfl, rfl, rfl⟩
  | some session => exact ⟨rfl, rfl, rfl⟩

theorem dropExited_eq (s : Server) (id : String) :
    s.dropExited id = if (s.registry.get? id).any Session.hasExited then s.upkeep (.remove id)
      else s := by
  rw [dropExited, upkeep, isLive]
  cases s.registry.get? id <;> rfl

/-- What a call on the server does to the sessions comes to works. -/
theorem exists_works_perform (s : Server) (now : Int) (freshId : String) (c : Call) :
    ∃ works, (s.afterUpkeep works).SameSessions (s.perform now freshId c).1 := by
  cases c with
  | create => exact ⟨[.create freshId now], rfl, rfl, rfl⟩
  | list | metrics => exact ⟨[], rfl, rfl, rfl⟩
  | delete id =>
    rw [← upkeep_remove]
    exact ⟨[.remove id], rfl, rfl, rfl⟩
  | session id c =>
    have hcall := sameSessions_callSession s now id c
    cases c with
    | command line =>
      simp only [perform]
      rw [dropExited_eq]
      split
      case isTrue => exact ⟨[.get id now _, .remove id], hcall.upkeep (.remove id)⟩
      case isFalse => exact ⟨[.get id now _], hcall⟩
    | view | input | load | run | step | reset | memory | assemble =>
      exact ⟨[.get id now _], hcall⟩

/-! ### The log -/

/-- When a work of the log uses the session. -/
def useOf? (id : String) : Server × Upkeep → Option Int
  | (_, .create other now) => if other = id then some now else none
  | (s, .get other now _) => if other = id ∧ s.isLive id then some now else none
  | _ => none

/-- When the session was created or, with success, asked for the last time. -/
def latestUse? (log : List (Server × Upkeep)) (id : String) : Option Int :=
  (log.filterMap (useOf? id)).getLast?

def created : Server × Upkeep → Nat
  | (_, .create _ _) => 1
  | _ => 0

/-- How many sessions a work removes. -/
def removed : Server × Upkeep → Nat
  | (s, .remove id) => if s.isLive id then 1 else 0
  | _ => 0

/-- How many sessions a work reports as swept out. -/
def swept : Server × Upkeep → Nat
  | (s, .sweep now) => (s.sweep now).2
  | _ => 0

/-- A session is created under an identifier that no other has. -/
def isFresh : Server × Upkeep → Bool
  | (s, .create id _) => !s.isLive id
  | _ => true

/-- What a log tells about a server that has had no sessions before it. -/
structure Accounted (timeout : Int) (expired : Nat) (log : List (Server × Upkeep))
    (s : Server) : Prop where
  timeout : s.registry.timeout = timeout
  used : ∀ id e, s.registry.sessions.get? id = some e → latestUse? log id = some e.2
  size : s.registry.size + (log.map removed).sum + (log.map swept).sum = (log.map created).sum
  expired : s.metrics.expired = expired + (log.map swept).sum

theorem latestUse?_append (log : List (Server × Upkeep)) (m : Server × Upkeep) (id : String) :
    latestUse? (log ++ [m]) id = (useOf? id m).or (latestUse? log id) := by
  rw [latestUse?, List.filterMap_append, List.getLast?_append]
  cases h : useOf? id m <;> simp [h, latestUse?]

/-! ### What each work does -/

theorem isLive_of_get? {session : Session} (h : s.registry.get? id = some session) :
    s.isLive id = true := by
  rw [isLive, h, Option.isSome_some]

theorem isLive_eq_contains (id : String) (s : Server) :
    s.isLive id = s.registry.sessions.contains id := by
  rw [isLive, Registry.get?, Option.isSome_map, SortedMap.contains]

theorem isLive_iff : s.isLive id = true ↔ ∃ e, s.registry.sessions.get? id = some e := by
  rw [isLive_eq_contains, SortedMap.contains, Option.isSome_iff_exists]

theorem isLive_eq_false_iff : s.isLive id = false ↔ s.registry.sessions.get? id = none := by
  rw [isLive_eq_contains, SortedMap.contains, Option.isSome_eq_false_iff,
    Option.isNone_iff_eq_none]

theorem registry_sweep (s : Server) (now : Int) :
    (s.sweep now).1.registry = s.registry.sweep now := by
  rw [sweep]
  dsimp only
  split
  case isTrue hnone => rw [Registry.sweep, List.length_eq_zero_iff.mp hnone, List.foldl_nil]
  case isFalse => rfl

theorem sweep_snd (s : Server) (now : Int) :
    (s.sweep now).2 = (s.registry.expired now).length := by
  rw [sweep]
  dsimp only
  split
  case isTrue hnone => exact hnone.symm
  case isFalse => rfl

theorem expired_sweep (s : Server) (now : Int) :
    (s.sweep now).1.metrics.expired = s.metrics.expired + (s.sweep now).2 := by
  rw [sweep]
  dsimp only
  split <;> rfl

/-- A work changes the number of the sessions by what the log shows. -/
theorem size_upkeep (hfresh : isFresh (s, w) = true) :
    (s.upkeep w).registry.size + removed (s, w) + swept (s, w) =
      s.registry.size + created (s, w) := by
  cases w with
  | create id now =>
    have hgone : s.isLive id = false := by simpa [isFresh] using hfresh
    exact SortedMap.size_insert (isLive_eq_false_iff.mp hgone) _
  | get id now change =>
    rw [upkeep, get]
    split
    case h_1 => rfl
    case h_2 session hsession =>
      have hlive : s.registry.sessions.contains id = true :=
        isLive_eq_contains id s ▸ isLive_of_get? hsession
      exact SortedMap.size_insert_of_contains hlive _
  | remove id =>
    simp only [upkeep, removed, swept, created]
    split
    case isTrue hlive =>
      obtain ⟨e, he⟩ := isLive_iff.mp hlive
      exact SortedMap.size_erase he
    case isFalse => rfl
  | sweep now =>
    simp only [upkeep, removed, swept, created]
    rw [registry_sweep, sweep_snd]
    exact s.registry.size_sweep now

theorem expired_upkeep (s : Server) (w : Upkeep) :
    (s.upkeep w).metrics.expired = s.metrics.expired + swept (s, w) := by
  cases w with
  | create id now => rfl
  | get id now change =>
    rw [upkeep, get]
    split <;> rfl
  | remove id =>
    rw [upkeep]
    split <;> rfl
  | sweep now => exact expired_sweep s now

theorem timeout_upkeep (s : Server) (w : Upkeep) :
    (s.upkeep w).registry.timeout = s.registry.timeout := by
  cases w with
  | create id now => rfl
  | get id now change =>
    rw [upkeep, get]
    split <;> rfl
  | remove id =>
    rw [upkeep]
    split <;> rfl
  | sweep now =>
    rw [upkeep, registry_sweep]
    exact (Registry.settings_removeAll _ _).1

/-- A session that is there after a work was used by it, or has been there before. -/
theorem useOf?_upkeep {e : Session × Int}
    (h : (s.upkeep w).registry.sessions.get? id = some e) :
    useOf? id (s, w) = some e.2 ∨
      (useOf? id (s, w) = none ∧ ∃ f, s.registry.sessions.get? id = some f ∧ f.2 = e.2) := by
  cases w with
  | create other now =>
    simp only [upkeep, countActive, Registry.create, SortedMap.get?_insert] at h
    simp only [useOf?]
    split at h
    case isTrue heq =>
      cases h
      exact .inl (if_pos heq)
    case isFalse hne => exact .inr ⟨if_neg hne, e, h, rfl⟩
  | get other now change =>
    simp only [upkeep, get] at h
    simp only [useOf?]
    split at h
    case h_1 hgone =>
      have hne : other ≠ id := by
        rintro rfl
        rw [Registry.get?, h] at hgone
        cases hgone
      exact .inr ⟨if_neg fun hboth => hne hboth.1, e, h, rfl⟩
    case h_2 session hsession =>
      rw [Registry.put, SortedMap.get?_insert] at h
      split at h
      case isTrue heq =>
        cases h
        have hlive : s.isLive id = true := heq ▸ isLive_of_get? hsession
        exact .inl (if_pos ⟨heq, hlive⟩)
      case isFalse hne => exact .inr ⟨if_neg fun hboth => hne hboth.1, e, h, rfl⟩
  | remove other =>
    refine .inr ⟨rfl, e, ?_, rfl⟩
    rw [upkeep] at h
    split at h
    case isTrue hlive =>
      simp only [remove, countActive, Registry.remove, SortedMap.get?_erase] at h
      split at h
      case isTrue => cases h
      case isFalse => exact h
    case isFalse => exact h
  | sweep now =>
    refine .inr ⟨rfl, e, ?_, rfl⟩
    rw [upkeep, registry_sweep, Registry.get?_sweep] at h
    exact (Option.filter_eq_some_iff.mp h).1

/-- After a work that changes the number of the sessions the metrics show it. -/
theorem active_upkeep (h : created (s, w) + removed (s, w) + swept (s, w) ≠ 0) :
    (s.upkeep w).metrics.active = (s.upkeep w).registry.size := by
  cases w with
  | create id now => rfl
  | get id now change => exact absurd rfl h
  | remove id =>
    simp only [created, removed, swept] at h
    rw [upkeep]
    split
    case isTrue hlive => rfl
    case isFalse hgone => simp [hgone] at h
  | sweep now =>
    simp only [created, removed, swept] at h
    rw [upkeep, sweep]
    rw [sweep_snd] at h
    dsimp only
    split
    case isTrue hnone => simp [hnone] at h
    case isFalse => rfl

theorem active_upkeep_of_unchanged (h : created (s, w) + removed (s, w) + swept (s, w) = 0) :
    (s.upkeep w).metrics.active = s.metrics.active := by
  cases w with
  | create id now => cases h
  | get id now change =>
    rw [upkeep, get]
    split <;> rfl
  | remove id =>
    simp only [created, removed, swept] at h
    rw [upkeep]
    split
    case isTrue hlive => simp [hlive] at h
    case isFalse => rfl
  | sweep now =>
    simp only [created, removed, swept, Nat.zero_add] at h
    rw [sweep_snd] at h
    simp only [upkeep, sweep, h, if_true]

/-- Metrics that show how many sessions there are keep up with their number. -/
theorem active_upkeep_of_active (h : s.metrics.active = s.registry.size) (w : Upkeep) :
    (s.upkeep w).metrics.active = (s.upkeep w).registry.size := by
  by_cases hsame : created (s, w) + removed (s, w) + swept (s, w) = 0
  case neg => exact active_upkeep hsame
  case pos =>
    have hfresh : isFresh (s, w) = true := by
      cases w with
      | create id now => cases hsame
      | get | remove | sweep => rfl
    have hsize := size_upkeep hfresh
    rw [active_upkeep_of_unchanged hsame, h]
    omega

theorem active_afterUpkeep (h : s.metrics.active = s.registry.size) (works : List Upkeep) :
    (s.afterUpkeep works).metrics.active = (s.afterUpkeep works).registry.size := by
  induction works generalizing s with
  | nil => exact h
  | cons w rest ih => exact ih (active_upkeep_of_active h w)

theorem Accounted.step {timeout : Int} {expired : Nat} (h : Accounted timeout expired log s)
    (hfresh : isFresh (s, w) = true) : Accounted timeout expired (log ++ [(s, w)]) (s.upkeep w) where
  timeout := (timeout_upkeep s w).trans h.timeout
  used := by
    intro id e he
    rw [latestUse?_append]
    rcases useOf?_upkeep he with huse | ⟨hnone, f, hf, hsame⟩
    · rw [huse, Option.some_or]
    · rw [hnone, Option.none_or, h.used id f hf, hsame]
  size := by
    have hbefore := h.size
    have hchange := size_upkeep hfresh
    simp only [List.map_append, List.map_cons, List.map_nil, List.sum_append, List.sum_singleton]
    omega
  expired := by
    have hbefore := h.expired
    have hchange := expired_upkeep s w
    simp only [List.map_append, List.map_cons, List.map_nil, List.sum_append, List.sum_singleton]
    omega

theorem Accounted.run {timeout : Int} {expired : Nat} (h : Accounted timeout expired log s)
    {works : List Upkeep} (hfresh : ∀ m ∈ s.logOf works, isFresh m = true) :
    Accounted timeout expired (log ++ s.logOf works) (s.afterUpkeep works) := by
  induction works generalizing s log with
  | nil => rwa [logOf, List.append_nil]
  | cons w rest ih =>
    obtain ⟨hfirst, hrest⟩ := List.forall_mem_cons.mp hfresh
    have hlater := ih (h.step hfirst) hrest
    rwa [List.append_assoc] at hlater

theorem accounted_empty (h : s.registry.sessions = .empty) :
    Accounted s.registry.timeout s.metrics.expired [] s where
  timeout := rfl
  used := by
    intro id e he
    rw [h] at he
    cases he
  size := by
    rw [Registry.size, h]
    rfl
  expired := rfl

/-- Whatever works are done on a server that has no sessions at first, each creation under a fresh
identifier: a sweep drops just the sessions whose latest use, as the log has it, is longer ago
than the timeout, leaves the others as they are and tells how many it has dropped. There are as
many sessions as have been created, less those removed and those swept out; the metrics have
counted the latter, and after each work that changes the number of the sessions they show it. -/
theorem upkeep_accounted (hempty : s.registry.sessions = .empty) {works : List Upkeep}
    (hfresh : ∀ m ∈ s.logOf works, isFresh m = true) :
    let log := s.logOf works
    let t := s.afterUpkeep works
    (∀ e ∈ t.registry.sessions.entries, (latestUse? log e.1).isSome) ∧
    (∀ now,
      let isOverdue (id : String) := (latestUse? log id).any fun used =>
        s.registry.timeout < now - used
      let entries := t.registry.sessions.entries
      (t.sweep now).1.registry.sessions.entries = entries.filter (fun e => !isOverdue e.1) ∧
        (t.sweep now).2 = entries.countP fun e => isOverdue e.1) ∧
    t.registry.size + (log.map removed).sum + (log.map swept).sum = (log.map created).sum ∧
    t.metrics.expired = s.metrics.expired + (log.map swept).sum ∧
    ∀ m ∈ log, created m + removed m + swept m ≠ 0 →
      (m.1.upkeep m.2).metrics.active = (m.1.upkeep m.2).registry.size := by
  intro log t
  have haccounted : Accounted s.registry.timeout s.metrics.expired log t :=
    (accounted_empty hempty).run hfresh
  have hused : ∀ e ∈ t.registry.sessions.entries, latestUse? log e.1 = some e.2.2 :=
    fun e he => haccounted.used e.1 e.2 (SortedMap.get?_of_mem he)
  refine ⟨fun e he => ?_, fun now => ?_, haccounted.size, haccounted.expired, fun m _ => ?_⟩
  · rw [hused e he, Option.isSome_some]
  · intro isOverdue entries
    have hoverdue : ∀ e ∈ entries, isOverdue e.1 = isExpired e.2.2 now t.registry.timeout := by
      intro e he
      simp only [isOverdue, hused e he, Option.any_some, isExpired, haccounted.timeout]
    constructor
    · rw [registry_sweep, Registry.entries_sweep]
      exact List.filter_congr fun e he => by rw [hoverdue e he]
    · rw [sweep_snd, Registry.length_expired]
      exact List.countP_congr fun e he => by rw [hoverdue e he]
  · exact active_upkeep

/-- One session is asked for in time, another one is removed, the third is swept out. -/
def touchedMeanwhile : List Upkeep :=
  [.create "a" 0, .create "b" 0, .create "c" 1, .get "a" 8 Session.reset, .remove "c",
    .sweep 12, .remove "b"]

theorem upkeep_accounted_touchedMeanwhile :
    let s : Server := { registry := .start 1 false 10, maxCycles := 0, cycleCeiling := 0 }
    s.registry.sessions = .empty ∧ (∀ m ∈ s.logOf touchedMeanwhile, isFresh m = true) ∧
      (s.afterUpkeep touchedMeanwhile).registry.size + 1 + 1 = 3 ∧
      (s.afterUpkeep touchedMeanwhile).metrics.expired = s.metrics.expired + 1 ∧
      ((s.afterUpkeep touchedMeanwhile).sweep 18).2 = 0 ∧
      ((s.afterUpkeep touchedMeanwhile).sweep 19).2 = 1 := by
  intro s
  have hempty : s.registry.sessions = .empty := rfl
  have hfresh : ∀ m ∈ s.logOf touchedMeanwhile, isFresh m = true := by decide +kernel
  have hcreated : ((s.logOf touchedMeanwhile).map created).sum = 3 := by decide +kernel
  have hremoved : ((s.logOf touchedMeanwhile).map removed).sum = 1 := by decide +kernel
  have hswept : ((s.logOf touchedMeanwhile).map swept).sum = 1 := by decide +kernel
  obtain ⟨-, hsweep, hsize, hexpired, -⟩ := upkeep_accounted hempty hfresh
  rw [hcreated, hremoved, hswept] at hsize
  rw [hswept] at hexpired
  refine ⟨hempty, hfresh, hsize, hexpired, ?_, ?_⟩
  · rw [(hsweep 18).2]
    decide +kernel
  · rw [(hsweep 19).2]
    decide +kernel

end Server

end Cpm80
