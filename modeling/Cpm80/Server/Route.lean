import Cpm80.Http.Body
import Cpm80.Http.Target

/-!
# Routes

A route is a place among the paths of a server, with a method. Some places belong to one
session, whose identifier is a part of the path. A request on a route is understood as a call,
which carries what the query or the body of the request gives; any other is turned away with an
answer of its own.
-/
namespace Cpm80

/-- What can be done to one session. -/
inductive Action
  | view
  | input
  | command
  | load
  | run
  | step
  | reset
  | memory
  | assemble
  | delete
  deriving DecidableEq, Repr

inductive Route
  | create
  | list
  | metrics
  | session (id : String) (action : Action)
  deriving DecidableEq, Repr

namespace Action

def method : Action → String
  | view | memory => "GET"
  | delete => "DELETE"
  | input | command | load | run | step | reset | assemble => "POST"

/-- The place as it is counted, whatever the session. -/
def endpoint : Action → String
  | view | delete => "/session/:id"
  | input => "/session/:id/input"
  | command => "/session/:id/command"
  | load => "/session/:id/load"
  | run => "/session/:id/run"
  | step => "/session/:id/step"
  | reset => "/session/:id/reset"
  | memory => "/session/:id/memory"
  | assemble => "/session/:id/assemble"

/-- The action with a place of its own below that of the session. -/
def ofName? : String → Option Action
  | "input" => some input
  | "command" => some command
  | "load" => some load
  | "run" => some run
  | "step" => some step
  | "reset" => some reset
  | "memory" => some memory
  | "assemble" => some assemble
  | _ => none

end Action

namespace Route

def method : Route → String
  | list | metrics => "GET"
  | create => "POST"
  | session _ action => action.method

/-- The place as it is counted, whatever the session. -/
def endpoint : Route → String
  | create => "/session"
  | list => "/sessions"
  | metrics => "/metrics"
  | session _ action => action.endpoint

/-- The routes of a place. The identifier of a session is not empty. -/
def atPlace : List String → List Route
  | ["metrics"] => [metrics]
  | ["api", "emulator", "session"] => [create]
  | ["api", "emulator", "sessions"] => [list]
  | ["api", "emulator", "session", id] =>
    if id.isEmpty then [] else [session id .view, session id .delete]
  | ["api", "emulator", "session", id, action] =>
    if id.isEmpty then [] else ((Action.ofName? action).map (session id)).toList
  | _ => []

/-- The route of a request. -/
def find (r : Http.Request) : Except Http.Rejection Route :=
  let parts := (Http.pathParts r.target.path).map String.ofList
  match atPlace parts with
  | [] => .error .notFound
  | routes =>
    match routes.find? fun route => route.method = r.method with
    | some route => .ok route
    | none => .error .methodNotAllowed

end Route

/-! ## What requests ask for -/

/-- What a request asks of one session. -/
inductive SessionCall
  | view
  | input (line : String)
  | command (line : String)
  | load (program : List UInt8) (address : Option UInt16)
  | run (start : Option UInt16) (cycles : Option Nat)
  | step
  | reset
  | memory (address : UInt16) (length : Option Nat)
  | assemble (source : String) (address : Option UInt16)

/-- A request that has been understood. -/
inductive Call
  | create
  | list
  | metrics
  | delete (id : String)
  | session (id : String) (call : SessionCall)

namespace SessionCall

open Http (record? optional? count? word? bytes?)

/-- What is done to the session. -/
def action : SessionCall → Action
  | view => .view
  | input _ => .input
  | command _ => .command
  | load _ _ => .load
  | run _ _ => .run
  | step => .step
  | reset => .reset
  | memory _ _ => .memory
  | assemble _ _ => .assemble

def inputOf? (body : Json) : Option SessionCall := do
  match ← record? ["input"] body with
  | [some line] => (line.text?).map input
  | _ => none

def commandOf? (body : Json) : Option SessionCall := do
  match ← record? ["command"] body with
  | [some line] => (line.text?).map command
  | _ => none

def loadOf? (body : Json) : Option SessionCall := do
  match ← record? ["program", "address"] body with
  | [some program, address] => some (load (← bytes? program) (← optional? word? address))
  | _ => none

def runOf? (body : Json) : Option SessionCall := do
  match ← record? ["startAddress", "maxCycles"] body with
  | [start, cycles] =>
    some (run (← optional? word? start) (← optional? (count? 0xFFFFFFFFFFFFFFFF) cycles))
  | _ => none

def assembleOf? (body : Json) : Option SessionCall := do
  match ← record? ["source", "address"] body with
  | [some source, address] => some (assemble (← source.text?) (← optional? word? address))
  | _ => none

/-- The values of a field of a query. -/
def fieldValues (name : String) (fields : List (String × String)) : List String :=
  (fields.filter fun f => f.1 = name).map Prod.snd

/-- A window of memory: an address, and a length that may be left out. -/
def memoryOf? (query : List Char) : Option SessionCall :=
  let fields := Http.queryFields query
  match fieldValues "address" fields, fieldValues "length" fields with
  | [address], lengths => do
    let address ← Numeral.bounded? 65535 address.toList
    match lengths with
    | [] => some (memory (UInt16.ofNat address) none)
    | [length] =>
      let length ← Numeral.bounded? 0xFFFFFFFFFFFFFFFF length.toList
      some (memory (UInt16.ofNat address) (some length))
    | _ => none
  | _, _ => none

end SessionCall

namespace Call

open SessionCall

def orBadRequest (c : Option SessionCall) : Except Http.Rejection SessionCall :=
  match c with
  | some c => .ok c
  | none => .error .badRequest

/-- A call that the value in the body gives. -/
def ofBody (read? : Json → Option SessionCall) (r : Http.Request) :
    Except Http.Rejection SessionCall :=
  r.jsonBody.bind fun body => orBadRequest (read? body)

/-- Understands a request for an action on a session. -/
def ofAction (id : String) (action : Action) (r : Http.Request) : Except Http.Rejection Call :=
  match action with
  | .delete => .ok (delete id)
  | .view => .ok (session id view)
  | .step => .ok (session id step)
  | .reset => .ok (session id reset)
  | .memory => (orBadRequest (memoryOf? r.target.query)).map (session id)
  | .input => (ofBody inputOf? r).map (session id)
  | .command => (ofBody commandOf? r).map (session id)
  | .load => (ofBody loadOf? r).map (session id)
  | .run => (ofBody runOf? r).map (session id)
  | .assemble => (ofBody assembleOf? r).map (session id)

/-- Understands a request on a route. -/
def ofRequest (route : Route) (r : Http.Request) : Except Http.Rejection Call :=
  match route with
  | .create => .ok create
  | .list => .ok list
  | .metrics => .ok metrics
  | .session id action => ofAction id action r

/-- The route of the requests that make the call. -/
def route : Call → Route
  | create => .create
  | list => .list
  | metrics => .metrics
  | delete id => .session id .delete
  | session id c => .session id c.action

end Call

/-- How requests are understood: each is turned away with an answer, or it makes a call. -/
abbrev Reader := Http.Request → Except Http.Response Call

/-- The call that a request makes. -/
def Http.Request.call : Reader := fun r =>
  if r.isPreflight then .error r.preflight
  else ((Route.find r).bind fun route => Call.ofRequest route r).mapError Rejection.response

end Cpm80
