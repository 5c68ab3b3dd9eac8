import Cpm80.Text.Utf8

/-!
# The console

Bytes typed at the keyboard wait in a queue until a program asks for them; bytes written to
the screen collect until somebody looks. A line ends in a carriage return or a line feed. The
keyboard sends a carriage return and a line feed for the end of a line as one, also when the
two arrive separately.
-/
namespace Cpm80

def carriageReturn : UInt8 := 0x0D
def lineFeed : UInt8 := 0x0A

structure Console where
  /-- What has been typed and not been read yet. -/
  input : List UInt8 := []
  /-- What has been written since the screen was last looked at. -/
  output : Array UInt8 := #[]
  /-- Whether the latest byte typed was a carriage return. -/
  afterReturn : Bool := false
  deriving DecidableEq

namespace Console

def isLineEnd (b : UInt8) : Bool :=
  b = carriageReturn || b = lineFeed

/-- What stays of typed bytes when each line feed right after a carriage return is dropped,
after the bytes `done`, which are in reverse; and whether a carriage return came last. -/
def foldedFrom (done : List UInt8) (afterReturn : Bool) : List UInt8 → List UInt8 × Bool
  | [] => (done.reverse, afterReturn)
  | b :: rest =>
    foldedFrom (if afterReturn ∧ b = lineFeed then done else b :: done) (b = carriageReturn) rest

/-- Queues bytes as they are. -/
def enqueue (c : Console) (bytes : List UInt8) : Console :=
  { c with input := c.input ++ bytes }

/-- Queues typed bytes. -/
def type (c : Console) (bytes : List UInt8) : Console :=
  let (kept, last) := foldedFrom [] c.afterReturn bytes
  { c with input := c.input ++ kept, afterReturn := last }

def hasInput (c : Console) : Bool :=
  !c.input.isEmpty

/-- Whether a whole line with its end is waiting. -/
def hasLine (c : Console) : Bool :=
  c.input.any isLineEnd

def getByte (c : Console) : Option UInt8 × Console :=
  match c.input with
  | [] => (none, c)
  | b :: rest => (some b, { c with input := rest })

/-- Takes a line and drops its end; takes all there is if the end is missing, and nothing if
there is nothing. -/
def getLine (c : Console) : Option (List UInt8) × Console :=
  match c.input.span fun b => !isLineEnd b with
  | ([], []) => (none, c)
  | (line, rest) => (some line, { c with input := rest.drop 1 })

def clearInput (c : Console) : Console :=
  { c with input := [], afterReturn := false }

def putByte : Console → UInt8 → Console
  | ⟨input, output, r⟩, b => ⟨input, output.push b, r⟩

def putBytes : Console → List UInt8 → Console
  | ⟨input, output, r⟩, bytes => ⟨input, output.appendList bytes, r⟩

theorem putBytes_putBytes (c : Console) (bytes more : List UInt8) :
    (c.putBytes bytes).putBytes more = c.putBytes (bytes ++ more) := by
  obtain ⟨input, output, r⟩ := c
  have houtput : (output.appendList bytes).appendList more =
      output.appendList (bytes ++ more) := by
    apply Array.toList_inj.mp
    simp
  rw [putBytes, putBytes, putBytes, houtput]

def print (c : Console) (text : String) : Console :=
  c.putBytes (Utf8.encode text.toList)

def endLine (c : Console) : Console :=
  c.putBytes [carriageReturn, lineFeed]

def printLine (c : Console) (text : String) : Console :=
  (c.print text).endLine

/-- The bytes written since the last look, and a console that starts afresh. -/
def takeOutput (c : Console) : List UInt8 × Console :=
  (c.output.toList, { c with output := #[] })

end Console

end Cpm80
