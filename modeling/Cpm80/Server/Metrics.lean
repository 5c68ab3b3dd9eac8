import Cpm80.SystemCall

/-!
# Metrics

What a server has done since its start: the usage of all its sessions, also of those that are
gone, the requests it has answered and the sessions that a sweep dropped. Requests that were
turned away do not count. The metrics are written one sample a line, with its labels.
-/
namespace Cpm80

structure Metrics where
  usage : Usage := .none
  /-- Answered requests, by the labels of endpoint, method and status. -/
  answered : SortedMap String Nat := .empty
  /-- Timed requests, by the labels of endpoint and method. -/
  timed : SortedMap String Nat := .empty
  expired : Nat := 0
  /-- The sessions there were at the latest change of their number. -/
  active : Nat := 0

namespace Metrics

/-- One more under a key. -/
def countOne (counts : SortedMap String Nat) (key : String) : SortedMap String Nat :=
  counts.insert key ((counts.get? key).getD 0 + 1)

/-- The labels of a sample in braces. -/
def labels (pairs : List (String × String)) : String :=
  "\x7b" ++ ",".intercalate (pairs.map fun p => p.1 ++ "=\"" ++ p.2 ++ "\"") ++ "\x7d"

/-- Counts an answered request. -/
def addRequest (method endpoint : String) (status : Nat) (m : Metrics) : Metrics :=
  let place := [("endpoint", endpoint), ("method", method)]
  { m with
    answered := countOne m.answered (labels (place ++ [("status", status.repr)]))
    timed := countOne m.timed (labels place) }

def addUsage (u : Usage) (m : Metrics) : Metrics :=
  { m with usage := m.usage.add u }

def setActive (n : Nat) (m : Metrics) : Metrics :=
  { m with active := n }

def addExpired (n : Nat) (m : Metrics) : Metrics :=
  { m with expired := m.expired + n }

/-- The labels of the system calls with a function number. -/
def callLabels (function : Nat) : String :=
  labels [("function", function.repr), ("name", SystemCall.describe (UInt8.ofNat function))]

/-- The counters with their values; a counter with labels has none before it first counts. -/
def counters (m : Metrics) : List (String × Nat) :=
  let results := [("ok", m.usage.cleanAssemblies), ("error", m.usage.failedAssemblies)]
  [("cpu_instructions_total", m.usage.instructions),
    ("cpu_cycles_total", m.usage.cycles),
    ("run_duration_seconds_count", m.usage.runs),
    ("expired_sessions_total", m.expired)] ++
  (m.usage.systemCalls.entries.map fun e => ("bdos_calls_total" ++ callLabels e.1, e.2)) ++
  ((results.filter fun r => r.2 ≠ 0).map fun r =>
    ("assemblies_total" ++ labels [("result", r.1)], r.2)) ++
  (m.answered.entries.map fun e => ("api_requests_total" ++ e.1, e.2)) ++
  (m.timed.entries.map fun e => ("api_request_duration_seconds_count" ++ e.1, e.2))

/-- All samples, one a line. -/
def render (m : Metrics) : String :=
  let samples := m.counters ++ [("active_sessions_total", m.active)]
  String.join (samples.map fun s => s.1 ++ " " ++ s.2.repr ++ "\n")

end Metrics

end Cpm80
