import Cpm80.SortedMap

/-!
# A directory of the host

A drive may keep its files in a directory of the machine that it runs on. This module models
such a directory by what lies below it: for each relative path a file or a directory. The
operations take effect as a whole or fail without effect, and fail for the reasons a file
system has: a name that is too long, a directory where a file is wanted, a missing file.
-/
namespace Cpm80

inductive HostEntry
  | file (content : Array UInt8)
  | directory
  deriving DecidableEq, Repr

/-- Why the host refused an operation. -/
inductive HostFailure
  | missing
  | notADirectory
  | isADirectory
  | nameTooLong
  | notEmpty
  deriving DecidableEq, Repr

def HostFailure.message : HostFailure → String
  | missing => "No such file or directory (os error 2)"
  | notADirectory => "Not a directory (os error 20)"
  | isADirectory => "Is a directory (os error 21)"
  | nameTooLong => "File name too long (os error 36)"
  | notEmpty => "Directory not empty (os error 39)"

/-- The entries below a directory by relative path, with slashes between the parts. -/
structure HostDirectory where
  entries : SortedMap String HostEntry

namespace HostDirectory

def empty : HostDirectory := ⟨.empty⟩

/-- The longest name of an entry, in bytes. -/
def maxNameLength : Nat := 255

/-- Whether the last part of a path is too long for a name. -/
def isTooLong (path : String) : Bool :=
  let name := (path.toList.reverse.takeWhile (· ≠ '/')).reverse
  maxNameLength < (String.ofList name).utf8ByteSize

def get? (d : HostDirectory) (path : String) : Option HostEntry :=
  d.entries.get? path

def put (d : HostDirectory) (path : String) (e : HostEntry) : HostDirectory :=
  ⟨d.entries.insert path e⟩

/-- The regular files directly in the directory, in the order of their names. -/
def files (d : HostDirectory) : List (String × Array UInt8) :=
  d.entries.entries.filterMap fun (path, e) =>
    match e with
    | .file content => if path.toList.contains '/' then none else some (path, content)
    | .directory => none

/-- Creates a file or replaces its content. -/
def write (d : HostDirectory) (name : String) (content : Array UInt8) :
    Except HostFailure HostDirectory :=
  if isTooLong name then .error .nameTooLong
  else if d.get? name = some .directory then .error .isADirectory
  else .ok (d.put name (.file content))

def remove (d : HostDirectory) (name : String) : Except HostFailure HostDirectory :=
  match d.get? name with
  | some (.file _) => .ok ⟨d.entries.erase name⟩
  | some .directory => .error .isADirectory
  | none => .error (if isTooLong name then .nameTooLong else .missing)

/-- The rest of `path` below the directory `name`. -/
def below? (name path : String) : Option (List Char) :=
  let front := name.toList ++ ['/']
  if front.isPrefixOf path.toList then some (path.toList.drop front.length) else none

/-- Whether nothing lies in the directory `name`. -/
def isEmptyAt (d : HostDirectory) (name : String) : Bool :=
  d.entries.keys.all fun path => (below? name path).isNone

/-- Gives a directory and all below it a new name. -/
def moveDirectory (d : HostDirectory) (old new : String) : HostDirectory :=
  ⟨SortedMap.ofList (d.entries.entries.map fun (path, e) =>
    if path = old then (new, e)
    else
      match below? old path with
      | some rest => (new ++ "/" ++ String.ofList rest, e)
      | none => (path, e))⟩

/-- Renames an entry, over a file or an empty directory of its own kind. -/
def rename (d : HostDirectory) (old new : String) : Except HostFailure HostDirectory :=
  match d.get? old, d.get? new with
  | none, _ => .error .missing
  | some (.file _), some .directory => .error .isADirectory
  | some .directory, some (.file _) => .error .notADirectory
  | some (.file content), _ =>
    if isTooLong new then .error .nameTooLong
    else .ok ⟨(d.entries.erase old).insert new (.file content)⟩
  | some .directory, some .directory =>
    if d.isEmptyAt new then .ok (d.moveDirectory old new) else .error .notEmpty
  | some .directory, none =>
    if isTooLong new then .error .nameTooLong
    else .ok (d.moveDirectory old new)

/-! ## Paths

A path leads from the directory through the directories below it. Empty parts and single dots
change nothing, two dots lead back. -/

/-- The parts of a path between its slashes. -/
def parts (path : String) : List String :=
  (partsOf path.toList).map String.ofList
where
  partsOf : List Char → List (List Char)
    | [] => [[]]
    | c :: rest =>
      match partsOf rest with
      | [] => [[c]]
      | part :: more => if c = '/' then [] :: part :: more else (c :: part) :: more

/-- The path made of parts, the innermost first. -/
def joined (parts : List String) : String :=
  "/".intercalate parts.reverse

/-- Whether a part changes nothing. -/
def isIdle (part : String) : Bool :=
  part = "" || part = "."

/-- Follows parts from the directory `here` on; fails where there is no directory. -/
def follow? (d : HostDirectory) (here : List String) : List String → Option (List String)
  | [] => some here
  | part :: rest =>
    if isIdle part then d.follow? here rest
    else if part = ".." then
      match here with
      | [] => none
      | _ :: outer => d.follow? outer rest
    else if d.get? (joined (part :: here)) = some .directory then d.follow? (part :: here) rest
    else none

/-- The place of the file that a path names. -/
def place? (d : HostDirectory) (path : String) : Option String :=
  match (parts path).reverse with
  | [] => none
  | name :: front =>
    if isIdle name ∨ name = ".." then none
    else (d.follow? [] front.reverse).map fun here => joined (name :: here)

/-- Writes the file that a path names. -/
def writePath (d : HostDirectory) (path : String) (content : Array UInt8) :
    Except HostFailure HostDirectory :=
  match d.place? path with
  | some place => d.write place content
  | none => .error .missing

/-- Removes the file that a path names. -/
def removePath (d : HostDirectory) (path : String) : Except HostFailure HostDirectory :=
  match d.place? path with
  | some place => d.remove place
  | none => .error .missing

/-- Creates the directories along parts from the directory `here` on, up to the first that
cannot be created. -/
def createFrom (d : HostDirectory) (here : List String) : List String → HostDirectory
  | [] => d
  | part :: rest =>
    if isIdle part then d.createFrom here rest
    else if part = ".." then
      match here with
      | [] => d
      | _ :: outer => d.createFrom outer rest
    else
      let path := joined (part :: here)
      match d.get? path with
      | some .directory => d.createFrom (part :: here) rest
      | some (.file _) => d
      | none =>
        if maxNameLength < part.utf8ByteSize then d
        else (d.put path .directory).createFrom (part :: here) rest

/-- Creates a directory with all that lead to it. A path from the root of the host leads out of
the directory, and no path holds the character zero. -/
def createPath (d : HostDirectory) (path : String) : HostDirectory :=
  if path.toList.head? = some '/' ∨ path.toList.contains '\x00' then d
  else d.createFrom [] (parts path)

/-- All entries with what the files hold; the path of a directory ends in a slash. -/
def listing (d : HostDirectory) : List (String × Option (Array UInt8)) :=
  let shown := d.entries.entries.map fun (path, e) =>
    match e with
    | .file content => (path, some content)
    | .directory => (path ++ "/", none)
  (SortedMap.ofList shown).entries

end HostDirectory

end Cpm80
