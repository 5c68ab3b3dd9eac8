import Cpm80.SortedMap

/-!
# Usage counts

What has been done since somebody last asked: runs of programs with the instructions and
cycles they took, system calls by function number, and assemblies. Counts are only ever
added to.
-/
namespace Cpm80

structure Usage where
  runs : Nat := 0
  instructions : Nat := 0
  cycles : Nat := 0
  /-- Serviced system calls by function number. -/
  systemCalls : SortedMap Nat Nat := .empty
  cleanAssemblies : Nat := 0
  failedAssemblies : Nat := 0

namespace Usage

def none : Usage := {}

def addSystemCall (u : Usage) (function : UInt8) : Usage :=
  let n := function.toNat
  { u with systemCalls := u.systemCalls.insert n ((u.systemCalls.get? n).getD 0 + 1) }

def addRun (u : Usage) (instructions cycles : Nat) : Usage :=
  { u with
    runs := u.runs + 1
    instructions := u.instructions + instructions
    cycles := u.cycles + cycles }

def addAssembly (u : Usage) (clean : Bool) : Usage :=
  if clean then { u with cleanAssemblies := u.cleanAssemblies + 1 }
  else { u with failedAssemblies := u.failedAssemblies + 1 }

/-- Adds counts of system calls. -/
def addCalls (calls more : SortedMap Nat Nat) : SortedMap Nat Nat :=
  more.entries.foldl (fun calls e => calls.insert e.1 ((calls.get? e.1).getD 0 + e.2)) calls

def add (u v : Usage) : Usage where
  runs := u.runs + v.runs
  instructions := u.instructions + v.instructions
  cycles := u.cycles + v.cycles
  systemCalls := addCalls u.systemCalls v.systemCalls
  cleanAssemblies := u.cleanAssemblies + v.cleanAssemblies
  failedAssemblies := u.failedAssemblies + v.failedAssemblies

end Usage

end Cpm80
