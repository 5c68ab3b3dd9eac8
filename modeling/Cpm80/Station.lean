import Cpm80.Console
import Cpm80.DiskSystem
import Cpm80.Usage

/-!
# The station

All of a computer but its processor: the memory, the disk system and the console, with the
counts of what they have been used for. Programs reach the disk system and the console
through system calls, the command line works on them directly.
-/
namespace Cpm80

structure Station where
  memory : Memory
  disk : DiskSystem
  console : Console
  usage : Usage

namespace Station

def ofDrives (drives : List Drive) : Station :=
  ⟨.blank, .ofDrives drives, {}, .none⟩

def onConsole (f : Console → Console) : Station → Station
  | ⟨m, d, c, u⟩ => ⟨m, d, f c, u⟩

def onMemory (f : Memory → Memory) : Station → Station
  | ⟨m, d, c, u⟩ => ⟨f m, d, c, u⟩

def onDisk (f : DiskSystem → DiskSystem) : Station → Station
  | ⟨m, d, c, u⟩ => ⟨m, f d, c, u⟩

def onUsage (f : Usage → Usage) : Station → Station
  | ⟨m, d, c, u⟩ => ⟨m, d, c, f u⟩

def print (s : Station) (text : String) : Station :=
  s.onConsole fun c => c.print text

def printLine (s : Station) (text : String) : Station :=
  s.onConsole fun c => c.printLine text

def printLines (s : Station) (lines : List String) : Station :=
  lines.foldl printLine s

/-- Performs a file operation. -/
def onFiles (f : DiskSystem → Memory → DiskSystem.Reply) : Station → Station × UInt16
  | ⟨m, d, c, u⟩ =>
    let ⟨d, m, answer⟩ := f d m
    (⟨m, d, c, u⟩, answer)

end Station

end Cpm80
