import Cpm80.Server.Service
import Cpm80.Settings.Arguments

/-!
# The command line

Starts a server with the settings that the arguments and the environment give. It answers the
requests on its standard input, one a line: a method, a target, and a JSON body if there is
more. Every answer is a line with the status and the content.
-/
namespace Cpm80.CommandLineServer

/-- The request in a line, if its target can be read. -/
def requestOf? (line : String) : Option Http.Request := do
  let (method, rest) := Text.splitWord line.toList
  let (target, body) := Text.splitWord rest
  let body := Utf8.encode (Text.trim body)
  let target ← Http.Target.read? target
  some
    { method := String.ofList method
      target
      headers := [("content-length", body.length.repr)]
      body }

def responseText (r : Http.Response) : String :=
  r.status.repr ++ match r.content with
    | .none => ""
    | .json v => " " ++ v.render
    | .text t => "\n" ++ t

/-- A fresh identifier. -/
def newId : IO String := do
  let bytes ← IO.getRandomBytes 16
  return String.join (bytes.toList.map Hex.byte)

/-- Answers requests until the input ends, and sweeps when it is time. -/
partial def serve (interval : Int) (lastSweep : Int) (s : Server) : IO Unit := do
  let line ← (← IO.getStdin).getLine
  if line.isEmpty then return
  let now : Int := (← IO.monoMsNow)
  let due := interval ≤ now - lastSweep
  let s := if due then (s.sweep now).1 else s
  let id ← newId
  let (s, response) := match requestOf? line with
    | some request => s.handle now id request
    | none => (s, Http.Rejection.badRequest.response)
  IO.println (responseText response)
  serve interval (if due then now else lastSweep) s

end Cpm80.CommandLineServer

open Cpm80 in
def main (arguments : List String) : IO UInt32 := do
  let environment ← Setting.all.mapM fun s => do
    return (s.environmentName, ← IO.getEnv s.environmentName)
  match Settings.ofArguments arguments fun name => (environment.lookup name).join with
  | .error e =>
    IO.eprintln e.message
    return if e = .helpWanted ∨ e = .versionWanted then 0 else 2
  | .ok settings =>
    match Server.ofSettings? settings with
    | none =>
      IO.eprintln "the session timeout is too long"
      return 2
    | some server =>
      CommandLineServer.serve (1000 * settings.effectiveSweepInterval) 0 server
      return 0
