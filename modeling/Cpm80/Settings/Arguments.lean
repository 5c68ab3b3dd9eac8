import Cpm80.Settings.Values

/-!
# Reading settings

Settings are given as arguments, by a long name or a letter, with the value in the same
argument or in the next one. A value is checked when the next option begins or the arguments
end, and before that a fault further on wins. A setting that no argument gives is taken from
the environment.
-/
namespace Cpm80.Settings

/-- Why arguments are refused, or what they ask for instead of a start. -/
inductive ArgumentFault
  /-- A text that is no value of the setting. -/
  | badValue
  /-- No value, or an empty one where there has to be a text. -/
  | missingValue
  | unknownArgument
  | repeated
  /-- A value for an option that has none. -/
  | unexpectedValue
  | helpWanted
  | versionWanted
  deriving DecidableEq, Repr

def ArgumentFault.message : ArgumentFault → String
  | badValue => "invalid value for a setting"
  | missingValue => "a value is required"
  | unknownArgument => "unexpected argument"
  | repeated => "a setting cannot be given twice"
  | unexpectedValue => "an option takes no value"
  | helpWanted => "usage: cpm80 [--bind ADDRESS] [-p PORT] [--session-timeout-secs N]\n" ++
      "  [--sweep-interval-secs N] [--max-cycles N] [--max-cycles-ceiling N]\n" ++
      "  [-d DRIVES] [--disk-root DIRECTORY]"
  | versionWanted => "cpm80 0.1.0"

/-- What an option asks for. -/
inductive Wish
  | setting (s : Setting)
  | help
  | version
  deriving DecidableEq, Repr

def Wish.ofLongName? (name : List Char) : Option Wish :=
  match String.ofList name with
  | "help" => some help
  | "version" => some version
  | name => (Setting.all.find? fun s => s.longName = name).map setting

def Wish.ofLetter? (c : Char) : Option Wish :=
  match c with
  | 'h' => some help
  | 'V' => some version
  | _ => (Setting.all.find? fun s => s.letter? = some c).map setting

/-- Arguments being read. -/
structure Arguments where
  settings : Settings := {}
  given : List Setting := []
  /-- The latest option, with its value if that has come; it is still to be checked. -/
  pending : Option (Setting × Option String) := none

namespace Arguments

/-- Gives a setting its value. -/
def assign (s : Setting) (value : String) (a : Arguments) : Except ArgumentFault Arguments :=
  match s.assign? value a.settings with
  | some settings => .ok { a with settings, given := s :: a.given }
  | none => .error (if s = .diskRoot then .missingValue else .badValue)

/-- Gives a setting a value by an argument, at most once. -/
def assignOnce (s : Setting) (value : String) (a : Arguments) :
    Except ArgumentFault Arguments :=
  if s ∈ a.given then .error .repeated else a.assign s value

/-- Checks the pending option. -/
def settle (a : Arguments) : Except ArgumentFault Arguments :=
  match a.pending with
  | none => .ok a
  | some (_, none) => .error .missingValue
  | some (s, some value) => assignOnce s value { a with pending := none }

/-- Takes an option, with the value that is attached to it. -/
def takeOption (w : Wish) (attached : Option (List Char)) (a : Arguments) :
    Except ArgumentFault Arguments := do
  let a ← a.settle
  match w with
  | .help => .error .helpWanted
  | .version => .error .versionWanted
  | .setting s =>
    match attached with
    | some value => a.assignOnce s (String.ofList value)
    | none => .ok { a with pending := some (s, none) }

/-- Takes what follows two dashes: a name, with a value after an equals sign. -/
def takeLong (text : List Char) (a : Arguments) : Except ArgumentFault Arguments :=
  let attached := match text.dropWhile (· ≠ '=') with
    | [] => none
    | _ :: value => some value
  match Wish.ofLongName? (text.takeWhile (· ≠ '=')) with
  | none => .error .unknownArgument
  | some (.setting s) => a.takeOption (.setting s) attached
  | some w => if attached.isSome then .error .unexpectedValue else a.takeOption w none

/-- The value that follows a letter at once; an equals sign in front is not part of it. -/
def attachedValue? : List Char → Option (List Char)
  | [] => none
  | '=' :: value => some value
  | value => some value

/-- Takes one argument. -/
def take (argument : List Char) (a : Arguments) : Except ArgumentFault Arguments :=
  match argument with
  | '-' :: '-' :: text => a.takeLong text
  | '-' :: letter :: rest =>
    match Wish.ofLetter? letter with
    | some w => a.takeOption w (attachedValue? rest)
    | none => .error .unknownArgument
  | _ =>
    match a.pending with
    | some (s, none) => .ok { a with pending := some (s, some (String.ofList argument)) }
    | _ => .error .unknownArgument

/-- Takes all arguments. Two dashes alone may only come last. -/
def takeAll (a : Arguments) : List String → Except ArgumentFault Arguments
  | [] => a.settle
  | ["--"] => a.settle
  | "--" :: _ => .error .unknownArgument
  | argument :: rest => do
    let a ← a.take argument.toList
    a.takeAll rest

/-- Takes the settings that are not given from the environment. -/
def takeEnvironment (environment : String → Option String) (a : Arguments) :
    Except ArgumentFault Arguments :=
  Setting.all.foldlM (fun a s =>
    match environment s.environmentName with
    | some value => if s ∈ a.given then .ok a else a.assign s value
    | none => .ok a) a

end Arguments

/-- The settings of a start. -/
def ofArguments (arguments : List String) (environment : String → Option String) :
    Except ArgumentFault Settings := do
  let a ← ({} : Arguments).takeAll arguments
  let a ← a.takeEnvironment environment
  .ok a.settings

end Cpm80.Settings
