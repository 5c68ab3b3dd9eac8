import Cpm80.FileName
import Cpm80.HostDirectory
import Cpm80.Text.Quoted

/-!
# Drives

A drive maps names in normal form to files. One kind lives in memory. The other reads a host
directory when it is opened and writes every change through to it: it remembers under which
host name each file lies, so a file that came with a name in lower case keeps it. An
operation that fails reports the cause. A host may also refuse a change for a reason of its own,
which is no matter of what lies in the directory.
-/
namespace Cpm80

inductive DriveError
  | notFound (name : String)
  | alreadyExists (name : String)
  /-- The name as it was given. -/
  | invalidName (name : String)
  | host (failure : HostFailure)
  deriving DecidableEq, Repr

def DriveError.message : DriveError → String
  | notFound name => "file not found: " ++ name
  | alreadyExists name => "file already exists: " ++ name
  | invalidName name => "invalid file name: " ++ Text.quoted name
  | host failure => "disk I/O error: " ++ failure.message

/-- What a drive can be asked to change. -/
inductive DirectoryDrive.Change
  | save (name : String) (content : Array UInt8)
  | delete (name : String)
  | rename (old new : String)

open DirectoryDrive (Change)

abbrev Files := SortedMap String (Array UInt8)

/-- The normal form of a name, or the error that it has none. -/
def FileName.normalize (name : String) : Except DriveError String :=
  match normalize? name with
  | some n => .ok n
  | none => .error (.invalidName name)

namespace Files

def save (f : Files) (name : String) (content : Array UInt8) : Files × Option DriveError :=
  match FileName.normalize name with
  | .error e => (f, some e)
  | .ok name => (f.insert name content, none)

def delete (f : Files) (name : String) : Files × Option DriveError :=
  match FileName.normalize name with
  | .error e => (f, some e)
  | .ok name => if f.contains name then (f.erase name, none) else (f, some (.notFound name))

/-- A taken new name is reported before a missing old one. -/
def rename (f : Files) (old new : String) : Files × Option DriveError :=
  match FileName.normalize old, FileName.normalize new with
  | .error e, _ => (f, some e)
  | .ok _, .error e => (f, some e)
  | .ok old, .ok new =>
    if f.contains new then (f, some (.alreadyExists new))
    else
      match f.get? old with
      | none => (f, some (.notFound old))
      | some content => ((f.erase old).insert new content, none)

def change (f : Files) : Change → Files × Option DriveError
  | .save name content => f.save name content
  | .delete name => f.delete name
  | .rename old new => f.rename old new

end Files

/-- A drive on a host directory. -/
structure DirectoryDrive where
  files : Files
  /-- The host name of each file. -/
  hostNames : SortedMap String String
  host : HostDirectory

namespace DirectoryDrive

/-- Takes a file of the host onto the drive, if its name has a short normal form. -/
def takeIn (d : DirectoryDrive) (file : String × Array UInt8) : DirectoryDrive :=
  match FileName.normalize? file.1 with
  | some name =>
    if FileName.isShort name then
      { d with
        files := d.files.insert name file.2
        hostNames := d.hostNames.insert name file.1 }
    else d
  | none => d

/-- The drive that is opened on a directory whose files are listed in any order. -/
def opened (host : HostDirectory) (listing : List (String × Array UInt8)) : DirectoryDrive :=
  listing.foldl takeIn ⟨.empty, .empty, host⟩

/-- Takes onto the drive every regular file whose name has a short normal form; the rest of
the directory stays out of sight. -/
def ofHost (host : HostDirectory) : DirectoryDrive :=
  opened host host.files

/-- Where a file lies or would be put. -/
def hostName (d : DirectoryDrive) (name : String) : String :=
  (d.hostNames.get? name).getD name

/-- The drive without a file, whatever becomes of it on the host. -/
def forget (d : DirectoryDrive) (name : String) : DirectoryDrive :=
  { d with files := d.files.erase name, hostNames := d.hostNames.erase name }

/-- What the host was going to do, unless it refuses for a reason of its own. -/
def attempt (refusal : Option HostFailure) (done : Except HostFailure HostDirectory) :
    Except HostFailure HostDirectory :=
  match refusal with
  | some e => .error e
  | none => done

/-- Makes a change; the host refuses to take part in it if there is a `refusal`. A file that
the host has lost already is deleted without complaint, and the drive lets go of a file before the
host is asked to remove it. A missing old name is reported before a taken new one. -/
def change (refusal : Option HostFailure) (d : DirectoryDrive) :
    Change → DirectoryDrive × Option DriveError
  | .save name content =>
    match FileName.normalize name with
    | .error e => (d, some e)
    | .ok name =>
      let hostName := d.hostName name
      match attempt refusal (d.host.write hostName content) with
      | .error e => (d, some (.host e))
      | .ok host =>
        (⟨d.files.insert name content, d.hostNames.insert name hostName, host⟩, none)
  | .delete name =>
    match FileName.normalize name with
    | .error e => (d, some e)
    | .ok name =>
      if d.files.contains name then
        match d.hostNames.get? name with
        | none => (d.forget name, none)
        | some hostName =>
          match attempt refusal (d.host.remove hostName) with
          | .ok host => ({ d.forget name with host }, none)
          | .error .missing => (d.forget name, none)
          | .error e => (d.forget name, some (.host e))
      else (d, some (.notFound name))
  | .rename old new =>
    match FileName.normalize old, FileName.normalize new with
    | .error e, _ => (d, some e)
    | .ok _, .error e => (d, some e)
    | .ok old, .ok new =>
      match d.files.get? old with
      | none => (d, some (.notFound old))
      | some content =>
        if d.files.contains new then (d, some (.alreadyExists new))
        else
          match attempt refusal (d.host.rename (d.hostName old) new) with
          | .error e => (d, some (.host e))
          | .ok host =>
            (⟨(d.files.erase old).insert new content,
              (d.hostNames.erase old).insert new new, host⟩, none)

/-! The host of a drive that runs does what it can. -/

def save (d : DirectoryDrive) (name : String) (content : Array UInt8) :
    DirectoryDrive × Option DriveError :=
  d.change none (.save name content)

def delete (d : DirectoryDrive) (name : String) : DirectoryDrive × Option DriveError :=
  d.change none (.delete name)

def rename (d : DirectoryDrive) (old new : String) : DirectoryDrive × Option DriveError :=
  d.change none (.rename old new)

end DirectoryDrive

inductive Drive
  | memory (files : Files)
  | directory (d : DirectoryDrive)

namespace Drive

def files : Drive → Files
  | memory files => files
  | directory d => d.files

/-- The content of a file; nothing also for a name that no file can have. -/
def get? (d : Drive) (name : String) : Option (Array UInt8) :=
  (FileName.normalize? name).bind d.files.get?

def contains (d : Drive) (name : String) : Bool :=
  (d.get? name).isSome

/-- The names of all files in ascending order. -/
def list (d : Drive) : List String :=
  d.files.keys

/-- Makes a change; the host refuses to take part in it if there is a `refusal`. -/
def change (refusal : Option HostFailure) (d : Drive) (c : Change) : Drive × Option DriveError :=
  match d with
  | memory files => (files.change c).map memory id
  | directory d => (d.change refusal c).map directory id

def save (d : Drive) (name : String) (content : Array UInt8) : Drive × Option DriveError :=
  d.change none (.save name content)

def delete (d : Drive) (name : String) : Drive × Option DriveError :=
  d.change none (.delete name)

def rename (d : Drive) (old new : String) : Drive × Option DriveError :=
  d.change none (.rename old new)

section

variable (f : Files) (d : DirectoryDrive) (name old new : String) (content : Array UInt8)

theorem memory_save : (memory f).save name content = (f.save name content).map memory id := rfl

theorem directory_save :
    (directory d).save name content = (d.save name content).map directory id := rfl

theorem memory_delete : (memory f).delete name = (f.delete name).map memory id := rfl

theorem directory_delete : (directory d).delete name = (d.delete name).map directory id := rfl

theorem memory_rename : (memory f).rename old new = (f.rename old new).map memory id := rfl

theorem directory_rename :
    (directory d).rename old new = (d.rename old new).map directory id := rfl

end

end Drive

end Cpm80
