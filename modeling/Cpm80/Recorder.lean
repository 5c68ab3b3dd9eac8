import Cpm80.Machine

/-!
# Devices that keep a record

A set of port devices for watching a machine from outside. Ports may have a device of their
own, which serves a queue of bytes or takes output; all other traffic and the halt signal go
to a console that is connected in one of three ways. What happened is recorded in order.
-/
namespace Cpm80

/-- What the console does with traffic on ports without a device of their own. -/
inductive Attachment
  /-- Reads zero and drops output. -/
  | detached
  /-- Serves its feed and records everything, the halt signal included. -/
  | recording
  deriving DecidableEq, Repr

inductive BusEvent
  | consoleOutput (port value : UInt8)
  | consoleInput (port value : UInt8)
  | halted
  | portOutput (port value : UInt8)
  | portInput (port value : UInt8)
  deriving DecidableEq, Repr

structure Recorder where
  attachment : Attachment
  /-- What the console has to offer on input; zero once it is used up. -/
  feed : List UInt8
  /-- The ports with an input device, each with the bytes it still has to offer. -/
  inputs : List (UInt8 × List UInt8)
  /-- The ports with an output device. -/
  outputs : List UInt8
  /-- The record, latest first. -/
  latest : List BusEvent := []

namespace Recorder

/-- The record in the order in which things happened. -/
def events (r : Recorder) : List BusEvent :=
  r.latest.reverse

def record (r : Recorder) (e : BusEvent) : Recorder :=
  { r with latest := e :: r.latest }

/-- Takes the next byte of a queue, or zero when there is none. -/
def nextByte : List UInt8 → UInt8 × List UInt8
  | [] => (0, [])
  | v :: rest => (v, rest)

def input (port : UInt8) (r : Recorder) : UInt8 × Recorder :=
  match r.inputs.lookup port with
  | some queue =>
    let (v, rest) := nextByte queue
    let inputs := r.inputs.map fun e => if e.1 = port then (port, rest) else e
    (v, { r with inputs }.record (.portInput port v))
  | none =>
    match r.attachment with
    | .detached => (0, r)
    | .recording =>
      let (v, rest) := nextByte r.feed
      (v, { r with feed := rest }.record (.consoleInput port v))

def output (port value : UInt8) (r : Recorder) : Recorder :=
  if port ∈ r.outputs then r.record (.portOutput port value)
  else
    match r.attachment with
    | .detached => r
    | .recording => r.record (.consoleOutput port value)

def halted (r : Recorder) : Recorder :=
  match r.attachment with
  | .detached => r
  | .recording => r.record .halted

def bus : Bus Recorder := ⟨input, output, halted⟩

end Recorder

end Cpm80
