import Cpm80.Network.Address

/-!
# Settings

What a server is started with: where it listens, how long an idle session lives, how long
programs run, and the drives of a session. Every setting has a default.
-/
namespace Cpm80

structure Settings where
  bind : IpAddress := .v4 #v[127, 0, 0, 1]
  port : UInt16 := 5000
  /-- In seconds, after which an idle session is dropped. -/
  sessionTimeout : Nat := 1800
  /-- In seconds, between two sweeps for idle sessions. -/
  sweepInterval : Nat := 300
  /-- The cycles of a run that does not ask for a number of them. -/
  maxCycles : Nat := 100000
  /-- The cycles that no run exceeds. -/
  cycleCeiling : Nat := 10000000
  drives : Nat := 2
  /-- The directory of the host for the drives, which are in memory without it. -/
  diskRoot : Option String := none
  deriving DecidableEq, Repr

namespace Settings

/-- The longest time that a clock in milliseconds can tell, in seconds. -/
def maxTimeout : Nat := 0x7FFFFFFFFFFFFFFF / 1000

/-- The timeout in seconds; there is none if no clock can tell it. -/
def timeout? (s : Settings) : Option Nat :=
  if s.sessionTimeout ≤ maxTimeout then some s.sessionTimeout else none

/-- In seconds; at least one. -/
def effectiveSweepInterval (s : Settings) : Nat :=
  max s.sweepInterval 1

def endpoint (s : Settings) : String :=
  s.bind.renderWithPort s.port

end Settings

/-- The settings that can be given by name. -/
inductive Setting
  | bind
  | port
  | sessionTimeout
  | sweepInterval
  | maxCycles
  | cycleCeiling
  | drives
  | diskRoot
  deriving DecidableEq, Repr

namespace Setting

def all : List Setting :=
  [bind, port, sessionTimeout, sweepInterval, maxCycles, cycleCeiling, drives, diskRoot]

/-- The name after two dashes. -/
def longName : Setting → String
  | bind => "bind"
  | port => "port"
  | sessionTimeout => "session-timeout-secs"
  | sweepInterval => "sweep-interval-secs"
  | maxCycles => "max-cycles"
  | cycleCeiling => "max-cycles-ceiling"
  | drives => "drives"
  | diskRoot => "disk-root"

/-- The letter after one dash. -/
def letter? : Setting → Option Char
  | port => some 'p'
  | drives => some 'd'
  | _ => none

/-- The variable of the environment that gives the setting when no argument does. -/
def environmentName : Setting → String
  | bind => "CPM_BIND"
  | port => "CPM_PORT"
  | sessionTimeout => "CPM_SESSION_TIMEOUT_SECS"
  | sweepInterval => "CPM_SWEEP_INTERVAL_SECS"
  | maxCycles => "CPM_MAX_CYCLES"
  | cycleCeiling => "CPM_MAX_CYCLES_CEILING"
  | drives => "CPM_DRIVES"
  | diskRoot => "CPM_DISK_ROOT"

/-- A decimal number from `low` to `high`. A minus sign is allowed, which leaves zero. -/
def numberWithin? (low high : Nat) (text : List Char) : Option Nat :=
  let value := match text with
    | '-' :: digits => (Numeral.nat? 10 digits).filter (· = 0)
    | _ => Numeral.bounded? high text
  value.filter (low ≤ ·)

/-- The largest count of seconds or cycles. -/
def maxCount : Nat := 0xFFFFFFFFFFFFFFFF

/-- Gives a setting the value that a text stands for. -/
def assign? (s : Setting) (text : String) (v : Settings) : Option Settings :=
  let chars := text.toList
  match s with
  | bind => (IpAddress.read? chars).map fun a => { v with bind := a }
  | port => (numberWithin? 0 65535 chars).map fun n => { v with port := UInt16.ofNat n }
  | sessionTimeout =>
    (Numeral.bounded? maxCount chars).map fun n => { v with sessionTimeout := n }
  | sweepInterval =>
    (Numeral.bounded? maxCount chars).map fun n => { v with sweepInterval := n }
  | maxCycles => (Numeral.bounded? maxCount chars).map fun n => { v with maxCycles := n }
  | cycleCeiling => (Numeral.bounded? maxCount chars).map fun n => { v with cycleCeiling := n }
  | drives => (numberWithin? 1 16 chars).map fun n => { v with drives := n }
  | diskRoot => if text.isEmpty then none else some { v with diskRoot := some text }

end Setting

end Cpm80
