import Cpm80.Server.Service

/-!
# Sessions are isolated

What is done to one session cannot be told from the answers of another. Two servers are alike
for a session if they have it in the same state, give new sessions the same drives and give runs
the same budgets. A request that names another session leaves a server alike to itself, and any
other request takes alike servers to alike servers with the same answer. So the requests to
other sessions can be left out of a sequence without a trace, except in the list of the sessions
and in the metrics. How requests are understood does not matter for this, if only the call that a
request makes is on the session that the request names.
-/
namespace Cpm80

/-! ## Which session a request names -/

/-- The session that the parts of a path name, whether or not there is a route. -/
def Route.namedAt? : List String → Option String
  | "api" :: "emulator" :: "session" :: id :: _ => some id
  | _ => none

def Http.Request.sessionId? (r : Http.Request) : Option String :=
  Route.namedAt? ((Http.pathParts r.target.path).map String.ofList)

def Route.sessionId? : Route → Option String
  | session id _ => some id
  | _ => none

def Call.sessionId? : Call → Option String
  | delete id | session id _ => some id
  | _ => none

theorem Route.sessionId?_of_mem_atPlace {parts : List String} {route : Route}
    (h : route ∈ atPlace parts) : route.sessionId? = namedAt? parts := by
  unfold atPlace at h
  split at h
  case h_1 | h_2 | h_3 =>
    obtain rfl := List.mem_singleton.mp h
    rfl
  case h_4 id =>
    split at h
    case isTrue hempty => cases h
    case isFalse hsome =>
      rcases List.mem_cons.mp h with rfl | h
      · rfl
      · obtain rfl := List.mem_singleton.mp h
        rfl
  case h_5 id name =>
    split at h
    case isTrue hempty => cases h
    case isFalse hsome =>
      obtain ⟨action, -, rfl⟩ := Option.map_eq_some_iff.mp (Option.mem_toList.mp h)
      rfl
  case h_6 => cases h

theorem Route.sessionId?_of_find {r : Http.Request} {route : Route} (h : find r = .ok route) :
    route.sessionId? = r.sessionId? := by
  unfold find at h
  dsimp only at h
  split at h
  case h_1 hnone => cases h
  case h_2 hroutes =>
    split at h
    case h_1 found hfound =>
      cases h
      exact sessionId?_of_mem_atPlace (List.mem_of_find?_eq_some hfound)
    case h_2 hnone => cases h

theorem Call.sessionId?_of_ofRequest {route : Route} {r : Http.Request} {c : Call}
    (h : ofRequest route r = .ok c) : c.sessionId? = route.sessionId? := by
  have hmap : ∀ {x : Except Http.Rejection SessionCall} {id : String},
      x.map (session id) = .ok c → c.sessionId? = some id := by
    intro x id hx
    cases x with
    | error e => cases hx
    | ok call =>
      cases hx
      rfl
  cases route with
  | create | list | metrics =>
    cases h
    rfl
  | session id action =>
    cases action with
    | delete | view | step | reset =>
      cases h
      rfl
    | input | command | load | run | memory | assemble => exact hmap h

/-- Tells which session a request names, whether or not it is understood. The call that it makes
is on that session. -/
structure Naming (read : Reader) where
  sessionId? : Http.Request → Option String
  sessionId?_of_ok : ∀ {r c}, read r = .ok c → c.sessionId? = sessionId? r

/-- A request names the session in its path. -/
def Naming.ofPath : Naming Http.Request.call where
  sessionId? := Http.Request.sessionId?
  sessionId?_of_ok {r c} h := by
    unfold Http.Request.call at h
    split at h
    case isTrue hpreflight => cases h
    case isFalse hrequest =>
      cases hroute : Route.find r with
      | error e =>
        rw [hroute] at h
        cases h
      | ok route =>
        cases hcall : Call.ofRequest route r with
        | error e =>
          simp only [hroute, Except.bind, hcall] at h
          cases h
        | ok found =>
          simp only [hroute, Except.bind, hcall] at h
          cases h
          exact (Call.sessionId?_of_ofRequest hcall).trans (Route.sessionId?_of_find hroute)

/-! ## Registries -/

namespace Registry

variable (r : Registry) (id other : String) (now : Int)

theorem get?_create : (r.create id now).get? other =
    if id = other then some (.ofDrives (List.replicate r.driveCount r.newDrive))
    else r.get? other := by
  rw [get?, create, SortedMap.get?_insert]
  split <;> rfl

theorem get?_put (session : Session) :
    (r.put id session now).get? other = if id = other then some session else r.get? other := by
  rw [get?, put, SortedMap.get?_insert]
  split <;> rfl

theorem get?_remove :
    (r.remove id).get? other = if id = other then none else r.get? other := by
  rw [get?, remove, SortedMap.get?_erase]
  split <;> rfl

end Registry

/-! ## Alike servers -/

namespace Server

/-- The servers cannot be told apart by what a request to the session `id` depends on. -/
structure Alike (id : String) (s t : Server) : Prop where
  session : t.registry.get? id = s.registry.get? id
  driveCount : t.registry.driveCount = s.registry.driveCount
  onHost : t.registry.onHost = s.registry.onHost
  maxCycles : t.maxCycles = s.maxCycles
  cycleCeiling : t.cycleCeiling = s.cycleCeiling

variable {id other : String} {s t u : Server} {now : Int} {freshId : String}

theorem Alike.refl (s : Server) : Alike id s s :=
  ⟨rfl, rfl, rfl, rfl, rfl⟩

theorem Alike.trans (h : Alike id s t) (h' : Alike id t u) : Alike id s u where
  session := h'.session.trans h.session
  driveCount := h'.driveCount.trans h.driveCount
  onHost := h'.onHost.trans h.onHost
  maxCycles := h'.maxCycles.trans h.maxCycles
  cycleCeiling := h'.cycleCeiling.trans h.cycleCeiling

theorem Alike.symm (h : Alike id s t) : Alike id t s :=
  ⟨h.session.symm, h.driveCount.symm, h.onHost.symm, h.maxCycles.symm, h.cycleCeiling.symm⟩

/-- The metrics do not count. -/
theorem alike_metrics (s : Server) (m : Metrics) : Alike id s { s with metrics := m } :=
  ⟨rfl, rfl, rfl, rfl, rfl⟩

theorem Alike.cycleBudget (h : Alike id s t) (requested : Option Nat) :
    t.cycleBudget requested = s.cycleBudget requested := by
  rw [Server.cycleBudget, Server.cycleBudget, h.maxCycles, h.cycleCeiling]

/-! ### Requests to another session -/

theorem alike_remove (h : other ≠ id) : Alike id s (s.remove other) :=
  ⟨(Registry.get?_remove _ _ _).trans (if_neg h), rfl, rfl, rfl, rfl⟩

theorem alike_callSession (h : other ≠ id) (c : SessionCall) :
    Alike id s (s.callSession now other c).1 := by
  rw [callSession]
  split
  case h_1 hnone => exact .refl s
  case h_2 session hsession =>
    generalize callOn other _ _ c session = done
    refine ⟨?_, rfl, rfl, rfl, rfl⟩
    simp only [Registry.get?_put, if_neg h]

theorem alike_dropExited (h : other ≠ id) : Alike id s (s.dropExited other) := by
  rw [dropExited]
  split
  case isTrue hexited => exact alike_remove h
  case isFalse hstays => exact .refl s

theorem alike_perform {c : Call} (hc : c.sessionId? = some other) (h : other ≠ id) :
    Alike id s (s.perform now freshId c).1 := by
  cases c with
  | create | list | metrics => cases hc
  | delete named =>
    cases hc
    rw [perform]
    split
    case isTrue hthere => exact alike_remove h
    case isFalse hgone => exact .refl s
  | session named call =>
    cases hc
    cases call with
    | command line =>
      rw [perform]
      exact (alike_callSession h _).trans (alike_dropExited h)
    | _ =>
      simp only [perform]
      exact alike_callSession h _

/-! ### All other requests -/

theorem Alike.remove (h : Alike id s t) : Alike id (s.remove id) (t.remove id) where
  session := (Registry.get?_remove _ _ _).trans
    ((if_pos rfl).trans ((Registry.get?_remove _ _ _).trans (if_pos rfl)).symm)
  driveCount := h.driveCount
  onHost := h.onHost
  maxCycles := h.maxCycles
  cycleCeiling := h.cycleCeiling

theorem Alike.create (h : Alike id s t) :
    Alike id { s with registry := s.registry.create freshId now }.countActive
      { t with registry := t.registry.create freshId now }.countActive where
  session := by
    have hdrive : t.registry.newDrive = s.registry.newDrive := by
      rw [Registry.newDrive, Registry.newDrive, h.onHost]
    simp only [countActive, Registry.get?_create, h.session, h.driveCount, hdrive]
  driveCount := h.driveCount
  onHost := h.onHost
  maxCycles := h.maxCycles
  cycleCeiling := h.cycleCeiling

/-- A call on the session goes the same way on alike servers. -/
theorem Alike.callSession (h : Alike id s t) (now : Int) (c : SessionCall) :
    Alike id (s.callSession now id c).1 (t.callSession now id c).1 ∧
      (t.callSession now id c).2 = (s.callSession now id c).2 := by
  have hlimited : (fun n => t.cycleBudget n) = fun n => s.cycleBudget n := funext h.cycleBudget
  rw [Server.callSession, Server.callSession, h.session, h.cycleBudget none, hlimited]
  split
  case h_1 hnone => exact ⟨h, rfl⟩
  case h_2 session hsession =>
    generalize callOn id _ _ c session = done
    refine ⟨⟨?_, h.driveCount, h.onHost, h.maxCycles, h.cycleCeiling⟩, rfl⟩
    simp only [Registry.get?_put, if_true]

theorem Alike.dropExited (h : Alike id s t) : Alike id (s.dropExited id) (t.dropExited id) := by
  rw [Server.dropExited, Server.dropExited, h.session]
  split
  case isTrue hexited => exact h.remove
  case isFalse hstays => exact h

theorem Alike.perform (h : Alike id s t) (now : Int) (freshId : String) {c : Call}
    (hc : c.sessionId? = none ∨ c.sessionId? = some id) :
    Alike id (s.perform now freshId c).1 (t.perform now freshId c).1 ∧
      (c ≠ .list → c ≠ .metrics →
        (t.perform now freshId c).2 = (s.perform now freshId c).2) := by
  cases c with
  | create => exact ⟨h.create, fun _ _ => rfl⟩
  | list => exact ⟨h, fun hlist _ => absurd rfl hlist⟩
  | metrics => exact ⟨h, fun _ hmetrics => absurd rfl hmetrics⟩
  | delete named =>
    obtain rfl : named = id := by simpa [Call.sessionId?] using hc
    rw [Server.perform, Server.perform, h.session]
    split
    case isTrue hthere => exact ⟨h.remove, fun _ _ => rfl⟩
    case isFalse hgone => exact ⟨h, fun _ _ => rfl⟩
  | session named call =>
    obtain rfl : named = id := by simpa [Call.sessionId?] using hc
    obtain ⟨halike, hresult⟩ := h.callSession now call
    cases call with
    | command line => exact ⟨halike.dropExited, fun _ _ => congrArg Reply.ofResult hresult⟩
    | _ => exact ⟨halike, fun _ _ => congrArg Reply.ofResult hresult⟩

/-! ## Requests -/

/-- A request with the time of its arrival, and the identifier that a session would get if the
request created one. -/
structure Arrival where
  now : Int
  freshId : String
  request : Http.Request

variable {read : Reader} {naming : Naming read} {r : Http.Request}

namespace Arrival

/-- The request names no session but, perhaps, `id`. -/
def namesAtMost (naming : Naming read) (id : String) (a : Arrival) : Bool :=
  (naming.sessionId? a.request).all (· = id)

/-- The request is answered with something about all sessions. -/
def asksForAll (read : Reader) (a : Arrival) : Bool :=
  match read a.request with
  | .ok .list | .ok .metrics => true
  | _ => false

end Arrival

/-- A request that names another session leaves no trace. -/
theorem alike_answer (now : Int) (freshId : String) (hr : naming.sessionId? r = some other)
    (h : other ≠ id) : Alike id s (s.answer read now freshId r).1 := by
  rw [answer]
  split
  case h_1 response hrefused => exact .refl s
  case h_2 c hcall =>
    have hc : c.sessionId? = some other := (naming.sessionId?_of_ok hcall).trans hr
    exact (alike_perform hc h).trans (alike_metrics _ _)

/-- Any other request is answered alike, unless it is about all sessions. -/
theorem Alike.answer (h : Alike id s t) (now : Int) (freshId : String)
    (hr : naming.sessionId? r = none ∨ naming.sessionId? r = some id) :
    Alike id (s.answer read now freshId r).1 (t.answer read now freshId r).1 ∧
      (read r ≠ .ok .list → read r ≠ .ok .metrics →
        (t.answer read now freshId r).2 = (s.answer read now freshId r).2) := by
  rw [Server.answer, Server.answer]
  split
  case h_1 response hrefused => exact ⟨h, fun _ _ => rfl⟩
  case h_2 c hcall =>
    rw [← naming.sessionId?_of_ok hcall] at hr
    obtain ⟨halike, hreply⟩ := h.perform now freshId hr
    refine ⟨((alike_metrics _ _).symm.trans halike).trans (alike_metrics _ _), ?_⟩
    intro hlist hmetrics
    rw [hcall] at hlist hmetrics
    have hsame := hreply (fun hc => hlist (congrArg _ hc)) (fun hc => hmetrics (congrArg _ hc))
    exact congrArg Reply.response hsame

/-- The requests with their answers, one after another. -/
def exchanges (read : Reader) (s : Server) : List Arrival → List (Arrival × Http.Response)
  | [] => []
  | a :: rest =>
    let (s, response) := s.answer read a.now a.freshId a.request
    (a, response) :: s.exchanges read rest

theorem Arrival.eq_none_or_of_namesAtMost {a : Arrival} (h : a.namesAtMost naming id = true) :
    naming.sessionId? a.request = none ∨ naming.sessionId? a.request = some id := by
  cases hnamed : naming.sessionId? a.request with
  | none => exact .inl rfl
  | some other => simpa [namesAtMost, hnamed] using h

theorem Arrival.read_ne_of_asksForAll {a : Arrival} (h : a.asksForAll read = false) :
    read a.request ≠ .ok .list ∧ read a.request ≠ .ok .metrics := by
  constructor
  · intro hlist
    simp [asksForAll, hlist] at h
  · intro hmetrics
    simp [asksForAll, hmetrics] at h

/-- What answers show that are not about all sessions is the same whether or not the requests
that name other sessions have been received. -/
theorem Alike.filter_exchanges (h : Alike id s t) {p : Arrival → Bool}
    (hp : ∀ a, p a = true → a.namesAtMost naming id = true ∧ a.asksForAll read = false)
    (arrivals : List Arrival) :
    (s.exchanges read (arrivals.filter (·.namesAtMost naming id))).filter (fun e => p e.1) =
      (t.exchanges read arrivals).filter fun e => p e.1 := by
  induction arrivals generalizing s t with
  | nil => rfl
  | cons a rest ih =>
    cases hnames : a.namesAtMost naming id with
    | false =>
      have hdropped : p a = false := by
        cases hpa : p a with
        | false => rfl
        | true => exact absurd (hp a hpa).1 (by simp [hnames])
      obtain ⟨other, hother, hne⟩ :
          ∃ other, naming.sessionId? a.request = some other ∧ other ≠ id := by
        cases hnamed : naming.sessionId? a.request with
        | none => simp [Arrival.namesAtMost, hnamed] at hnames
        | some other => exact ⟨other, rfl, by simpa [Arrival.namesAtMost, hnamed] using hnames⟩
      have hlater := h.trans (alike_answer a.now a.freshId hother hne)
      rw [List.filter_cons_of_neg (by simp [hnames]), ih hlater, exchanges]
      simp [hdropped]
    | true =>
      obtain ⟨hlater, hanswer⟩ := h.answer a.now a.freshId
        (Arrival.eq_none_or_of_namesAtMost hnames)
      rw [List.filter_cons_of_pos hnames, exchanges, exchanges]
      cases hpa : p a with
      | false => simp [hpa, ih hlater]
      | true =>
        obtain ⟨hlist, hmetrics⟩ := Arrival.read_ne_of_asksForAll (hp a hpa).2
        simp [hpa, ih hlater, hanswer hlist hmetrics]

theorem map_fst_exchanges (read : Reader) (s : Server) (arrivals : List Arrival) :
    (s.exchanges read arrivals).map Prod.fst = arrivals := by
  induction arrivals generalizing s with
  | nil => rfl
  | cons a rest ih => rw [exchanges, List.map_cons, ih]

theorem Arrival.asksForAll_of_names {a : Arrival} (h : naming.sessionId? a.request = some id) :
    a.asksForAll read = false := by
  unfold asksForAll
  split
  case h_1 hlist => cases (naming.sessionId?_of_ok hlist).trans h
  case h_2 hmetrics => cases (naming.sessionId?_of_ok hmetrics).trans h
  case h_3 => rfl

/-- Sessions are isolated, however requests are understood: without the requests that name other
sessions, the requests that name the session `id` are answered as they are with them, and so is
every other request but those for the list of the sessions and for the metrics. Identifiers need
not be fresh for this. -/
theorem sessions_isolated (naming : Naming read) (s : Server) (id : String)
    (arrivals : List Arrival) :
    let kept := arrivals.filter (·.namesAtMost naming id)
    (s.exchanges read kept).filter (fun e => naming.sessionId? e.1.request = some id) =
        (s.exchanges read arrivals).filter (fun e => naming.sessionId? e.1.request = some id) ∧
      (s.exchanges read kept).filter (fun e => !e.1.asksForAll read) =
        (s.exchanges read arrivals).filter fun e =>
          e.1.namesAtMost naming id && !e.1.asksForAll read := by
  intro kept
  constructor
  · apply (Alike.refl s).filter_exchanges (p := fun a => naming.sessionId? a.request = some id)
    intro a ha
    have hnamed : naming.sessionId? a.request = some id := of_decide_eq_true ha
    exact ⟨by simp [Arrival.namesAtMost, hnamed], Arrival.asksForAll_of_names hnamed⟩
  · have hkept : ∀ e ∈ s.exchanges read kept, e.1.namesAtMost naming id = true := by
      intro e he
      have hmem : e.1 ∈ kept := map_fst_exchanges read s kept ▸ List.mem_map_of_mem he
      exact (List.mem_filter.mp hmem).2
    have hfilter : (s.exchanges read kept).filter (fun e => !e.1.asksForAll read) =
        (s.exchanges read kept).filter fun e =>
          e.1.namesAtMost naming id && !e.1.asksForAll read :=
      List.filter_congr fun e he => by rw [hkept e he, Bool.true_and]
    rw [hfilter]
    apply (Alike.refl s).filter_exchanges
      (p := fun a => a.namesAtMost naming id && !a.asksForAll read)
    intro a ha
    simpa using ha

/-- A request that posts a line for a session. -/
def posting (place line : String) : Http.Request where
  method := "POST"
  target := { path := ("/api/emulator/session" ++ place).toList }
  headers := [("content-length", "32")]
  body := Utf8.encode ("[\"" ++ line ++ "\"]").toList

/-- Two sessions are created and both are used; one user leaves the editor only, and then the
session. -/
def twoUsers : List Arrival :=
  [⟨0, "a", posting "" ""⟩, ⟨1, "b", posting "" ""⟩, ⟨2, "c", posting "/a/command" "DIR"⟩,
    ⟨3, "c", posting "/b/command" "ED"⟩, ⟨4, "c", posting "/b/command" "QUIT"⟩,
    ⟨5, "c", posting "/b/command" "EXIT"⟩, ⟨6, "c", posting "/a/input" "DIR"⟩]

theorem sessions_isolated_twoUsers :
    let s : Server := { registry := .start 1 false 5, maxCycles := 10, cycleCeiling := 10 }
    let kept := twoUsers.filter (·.namesAtMost .ofPath "a")
    let answers (arrivals : List Arrival) :=
      (s.exchanges Http.Request.call arrivals).filter fun e =>
        e.1.request.sessionId? = some "a"
    kept.length = 4 ∧ answers kept = answers twoUsers ∧
      (answers twoUsers).map (·.2.status) = [200, 200] := by
  intro s kept answers
  have hanswers : answers kept = answers twoUsers := (sessions_isolated .ofPath s "a" twoUsers).1
  exact ⟨by decide +kernel, hanswers, by decide +kernel⟩

end Server

end Cpm80
