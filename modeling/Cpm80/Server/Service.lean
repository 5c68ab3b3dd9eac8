import Cpm80.Http.Message
import Cpm80.Server.Metrics
import Cpm80.Server.Registry
import Cpm80.Server.Route
import Cpm80.Settings.Values

/-!
# The server

The server answers requests one after another. A request that is turned away changes nothing;
any other is answered with an envelope that holds either data or the text of an error, and is
counted. What a request does to a session depends on that session alone.
-/
namespace Cpm80

structure Server where
  registry : Registry
  metrics : Metrics := {}
  /-- The cycles of a run that does not ask for a number of them. -/
  maxCycles : Nat
  /-- The cycles that no request exceeds. -/
  cycleCeiling : Nat

/-- Why a request that was understood fails. -/
inductive ServerError
  | noSession (id : String)
  | outOfBounds (e : OutOfBounds)
  deriving DecidableEq, Repr

namespace ServerError

def message : ServerError → String
  | noSession id => "session " ++ id ++ " not found"
  | outOfBounds e => e.message

def status : ServerError → Nat
  | noSession _ => 404
  | outOfBounds _ => 400

end ServerError

/-! ## Data -/

namespace Session

def cpuJson (s : Session) : Json :=
  let p := s.computer.cpu
  .ofFields [("a", .ofNat p.a.toNat), ("b", .ofNat p.b.toNat), ("c", .ofNat p.c.toNat),
    ("d", .ofNat p.d.toNat), ("e", .ofNat p.e.toNat), ("h", .ofNat p.h.toNat),
    ("l", .ofNat p.l.toNat), ("flags", .ofNat p.flags.toNat), ("sp", .ofNat p.sp.toNat),
    ("pc", .ofNat p.pc.toNat), ("halted", .bool p.halted),
    ("interruptsEnabled", .bool p.interruptsEnabled), ("cycles", .ofNat s.cycles),
    ("instructions", .ofNat s.instructions), ("awaitingInput", .bool s.awaitingInput)]

/-- The name of who reads the next line. -/
def modeName (s : Session) : String :=
  match s.mode with
  | .commandLine => "ccp"
  | .editor _ => "editor"
  | .basic _ => "basic"
  | .exited _ => "exited"

end Session

def RunOutcome.name : RunOutcome → String
  | halted => "halted"
  | awaitingInput => "awaitingInput"
  | cycleLimit => "cycleLimit"

def RunReport.json (r : RunReport) : Json :=
  .ofFields [("cycles", .ofNat r.cycles), ("instructions", .ofNat r.instructions),
    ("halted", .bool r.halted), ("outcome", .ofText r.outcome.name)]

namespace Server

/-- The server that settings describe, without sessions; there is none for a timeout that no
clock can tell. Times are in milliseconds. -/
def ofSettings? (s : Settings) : Option Server :=
  s.timeout?.map fun timeout =>
    { registry := .start s.drives s.diskRoot.isSome (1000 * timeout)
      maxCycles := s.maxCycles
      cycleCeiling := s.cycleCeiling }

def bytesJson (bytes : List UInt8) : Json :=
  .array (bytes.map fun b => .ofNat b.toNat)

/-- What a line or a run led to, with the output since the last answer. -/
def executionJson (s : Session) (report : Option RunReport) : Session × Json :=
  let (output, s) := s.takeOutput
  (s, .ofFields [("output", .ofText (String.ofList output)), ("cpu", s.cpuJson),
    ("report", (report.map RunReport.json).getD .null), ("mode", .ofText s.modeName)])

def assemblyJson (a : Assembly) : Json :=
  .ofFields [("origin", .ofNat a.origin.toNat), ("bytes", bytesJson a.image.toList),
    ("symbols", .ofFields (a.symbols.entries.map fun e => (e.1, .ofNat e.2.toNat))),
    ("diagnostics", .array (a.diagnostics.map fun d =>
      .ofFields [("line", .ofNat d.line), ("message", .ofText d.message)])),
    ("loaded", .bool a.isOk)]

/-- The envelope of a result. -/
def envelope : Except ServerError Json → Json
  | .ok data => .ofFields [("success", .bool true), ("data", data), ("error", .null)]
  | .error e =>
    .ofFields [("success", .bool false), ("data", .null), ("error", .ofText e.message)]

/-! ## Calls on a session -/

/-- The cycles that a request gets. -/
def cycleBudget (requested : Option Nat) (s : Server) : Nat :=
  min (requested.getD s.maxCycles) s.cycleCeiling

/-- The largest window of memory that one request reads. -/
def maxWindow : Nat := 4096

/-- The window of a request that does not give a length. -/
def defaultWindow : Nat := 256

def loadedText (length : Nat) (a : UInt16) : String :=
  "Loaded " ++ length.repr ++ " bytes at " ++ Hex.word a ++ "H"

/-- Carries out a call on a session. The budget is for what the user types, `limited` gives
the budget of a run. -/
def callOn (id : String) (budget : Nat) (limited : Option Nat → Nat) (c : SessionCall)
    (s : Session) : Session × Except ServerError Json :=
  match c with
  | .view =>
    let (output, s) := s.takeOutput
    (s, .ok (.ofFields [("sessionId", .ofText id), ("output", .ofText (String.ofList output)),
      ("cpu", s.cpuJson), ("mode", .ofText s.modeName)]))
  | .input line =>
    let (s, report) := s.enterLine line.toList budget
    (executionJson s report).map (fun s => s) .ok
  | .command line =>
    let (s, report) := s.command line.toList budget
    (executionJson s report).map (fun s => s) .ok
  | .load program address =>
    let a := address.getD CommandLine.programStart
    match s.load a program with
    | (s, none) => (s, .ok (.ofText (loadedText program.length a)))
    | (s, some e) => (s, .error (.outOfBounds e))
  | .run start cycles =>
    let (s, report) := s.run start (limited cycles)
    (executionJson s (some report)).map (fun s => s) .ok
  | .step =>
    let (s, cost) := s.step
    (s, .ok (.ofFields [("cycles", .ofNat cost), ("cpu", s.cpuJson)]))
  | .reset =>
    let s := s.reset
    (s, .ok s.cpuJson)
  | .memory a length =>
    match s.dump a (min (length.getD defaultWindow) maxWindow) with
    | .ok bytes => (s, .ok (.ofFields [("address", .ofNat a.toNat), ("data", bytesJson bytes)]))
    | .error e => (s, .error (.outOfBounds e))
  | .assemble source address =>
    match s.assemble source.toList (address.getD CommandLine.programStart) with
    | (s, .ok a) => (s, .ok (assemblyJson a))
    | (s, .error e) => (s, .error (.outOfBounds e))

/-! ## Requests -/

def countActive (s : Server) : Server :=
  { s with metrics := s.metrics.setActive s.registry.size }

/-- Ends a session. -/
def remove (id : String) (s : Server) : Server :=
  { s with registry := s.registry.remove id }.countActive

/-- Carries out a call on the session of an identifier, and takes over what it has used. -/
def callSession (now : Int) (id : String) (c : SessionCall) (s : Server) :
    Server × Except ServerError Json :=
  match s.registry.get? id with
  | none => (s, .error (.noSession id))
  | some session =>
    let (session, result) := callOn id (s.cycleBudget none) (fun n => s.cycleBudget n) c session
    let (used, session) := session.takeUsage
    ({ s with
        registry := s.registry.put id session now
        metrics := s.metrics.addUsage used }, result)

/-- Ends a session that a command has left. -/
def dropExited (id : String) (s : Server) : Server :=
  if (s.registry.get? id).any Session.hasExited then s.remove id else s

/-- What came of a call: data, plain text or an error. -/
inductive Reply
  | data (value : Json)
  | text (t : String)
  | failed (e : ServerError)

def Reply.ofResult : Except ServerError Json → Reply
  | .ok value => data value
  | .error e => failed e

/-- Data and errors come in an envelope. -/
def Reply.response : Reply → Http.Response
  | data value => { status := 200, content := .json (envelope (.ok value)) }
  | text t => { status := 200, content := .text t }
  | failed e => { status := e.status, content := .json (envelope (.error e)) }

/-- Carries out a call. A new session gets the identifier `freshId`. -/
def perform (now : Int) (freshId : String) (c : Call) (s : Server) : Server × Reply :=
  match c with
  | .create =>
    ({ s with registry := s.registry.create freshId now }.countActive,
      .data (.ofFields [("sessionId", .ofText freshId)]))
  | .list =>
    (s, .data (.array (s.registry.list.map fun e =>
      .ofFields [("sessionId", .ofText e.1), ("lastAccess", .integer e.2)])))
  | .metrics => (s, .text s.metrics.render)
  | .delete id =>
    if (s.registry.get? id).isSome then
      (s.remove id, .data (.ofText ("Session " ++ id ++ " deleted")))
    else (s, .failed (.noSession id))
  | .session id (.command line) =>
    let (s, result) := s.callSession now id (.command line)
    (s.dropExited id, .ofResult result)
  | .session id c =>
    let (s, result) := s.callSession now id c
    (s, .ofResult result)

/-- Answers a request, as it is understood. -/
def answer (read : Reader) (now : Int) (freshId : String) (r : Http.Request) (s : Server) :
    Server × Http.Response :=
  match read r with
  | .error response => (s, response)
  | .ok c =>
    let (s, reply) := s.perform now freshId c
    let response := reply.response
    ({ s with
        metrics := s.metrics.addRequest c.route.method c.route.endpoint response.status },
      response)

/-- Answers a request by the call that it makes. -/
def handle (now : Int) (freshId : String) (r : Http.Request) (s : Server) :
    Server × Http.Response :=
  s.answer Http.Request.call now freshId r

/-- Drops the sessions that are idle for too long, and tells how many. -/
def sweep (now : Int) (s : Server) : Server × Nat :=
  let n := (s.registry.expired now).length
  if n = 0 then (s, 0)
  else
    let s := { s with registry := s.registry.sweep now }
    ({ s with metrics := s.metrics.addExpired n }.countActive, n)

end Server

end Cpm80
