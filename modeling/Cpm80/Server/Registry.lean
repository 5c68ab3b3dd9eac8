import Cpm80.Session

/-!
# The registry of sessions

Sessions are kept by an identifier, with the time at which each was last asked for. A sweep
drops the ones that have been idle for longer than the timeout. Times are whole numbers of
any one unit.
-/
namespace Cpm80

/-- Whether a session last asked for at `last` has been idle for longer than `timeout`. -/
def isExpired (last now timeout : Int) : Bool :=
  timeout < now - last

structure Registry where
  sessions : SortedMap String (Session × Int) := .empty
  driveCount : Nat
  /-- Whether the drives of a session lie on the host. -/
  onHost : Bool
  timeout : Int
  /-- The drives on the host of the sessions that have ended. -/
  abandoned : SortedMap String (List Drive) := .empty

namespace Registry

/-- A registry whose sessions have from one to sixteen drives. -/
def start (driveCount : Nat) (onHost : Bool) (timeout : Int) : Registry :=
  { driveCount := min (max driveCount 1) 16, onHost, timeout }

def newDrive (r : Registry) : Drive :=
  if r.onHost then .directory (.ofHost .empty) else .memory .empty

/-- Adds a new session. -/
def create (id : String) (now : Int) (r : Registry) : Registry :=
  let session := Session.ofDrives (List.replicate r.driveCount r.newDrive)
  { r with sessions := r.sessions.insert id (session, now) }

def get? (r : Registry) (id : String) : Option Session :=
  (r.sessions.get? id).map Prod.fst

/-- Puts a session back that has been asked for. -/
def put (id : String) (session : Session) (now : Int) (r : Registry) : Registry :=
  { r with sessions := r.sessions.insert id (session, now) }

/-- Takes a session out; what it has on the host stays there. -/
def remove (id : String) (r : Registry) : Registry :=
  let abandoned := match r.get? id with
    | some s => if r.onHost then r.abandoned.insert id s.computer.station.disk.drives
      else r.abandoned
    | none => r.abandoned
  { r with sessions := r.sessions.erase id, abandoned }

def size (r : Registry) : Nat :=
  r.sessions.size

/-- The identifiers with the times of the latest use, in order. -/
def list (r : Registry) : List (String × Int) :=
  r.sessions.entries.map fun e => (e.1, e.2.2)

/-- The identifiers of the sessions that a sweep at a time drops. -/
def expired (now : Int) (r : Registry) : List String :=
  (r.list.filter fun e => isExpired e.2 now r.timeout).map Prod.fst

/-- Drops the sessions that are idle for too long. -/
def sweep (now : Int) (r : Registry) : Registry :=
  (r.expired now).foldl (fun r id => r.remove id) r

/-! ## The host -/

/-- What a drive has on the host, under a path. -/
def driveListing (path : String) (d : Drive) : List (String × Option (Array UInt8)) :=
  match d with
  | .memory _ => []
  | .directory d => (path, none) :: d.host.listing.map fun e => (path ++ e.1, e.2)

/-- What the drives of a session have on the host: a directory with one for each drive. -/
def sessionListing (id : String) (drives : List Drive) :
    List (String × Option (Array UInt8)) :=
  (id ++ "/", none) :: (drives.zipIdx.flatMap fun (d, i) =>
    match CommandLine.driveLetter? i with
    | some letter => driveListing (id ++ "/" ++ String.singleton letter ++ "/") d
    | none => [])

/-- All that lies on the host, in the order of the paths. -/
def hostListing (r : Registry) : List (String × Option (Array UInt8)) :=
  if r.onHost then
    let live := r.sessions.entries.map fun e => (e.1, e.2.1.computer.station.disk.drives)
    (SortedMap.ofList (r.abandoned.entries ++ live)).entries.flatMap fun e =>
      sessionListing e.1 e.2
  else []

end Registry

end Cpm80
