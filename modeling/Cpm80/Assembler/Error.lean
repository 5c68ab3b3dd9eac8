import Cpm80.Text.Numeral

/-!
# What can be wrong with a source line

Each cause carries what its message names. A diagnostic is a cause with the number of the
line, counted from one.
-/
namespace Cpm80.Assembler

inductive Fault
  | unknownMnemonic (mnemonic : String)
  | invalidOperands (mnemonic : String)
  | missingOperand (mnemonic : String)
  | malformedNumber (text : String)
  | undefinedSymbol (name : String)
  | duplicateLabel (name : String)
  | invalidLabel (text : String)
  | missingLabel
  | outOfRange (value : Int) (bits : Nat)
  | unterminatedString
  | originBackwards (address : UInt16)
  | addressOverflow
  deriving DecidableEq, Repr

def Fault.message : Fault → String
  | unknownMnemonic m => "unknown mnemonic " ++ m
  | invalidOperands m => "invalid operands for " ++ m
  | missingOperand m => "missing operand for " ++ m
  | malformedNumber t => "malformed number " ++ t
  | undefinedSymbol n => "undefined symbol " ++ n
  | duplicateLabel n => "duplicate label " ++ n
  | invalidLabel t => "invalid label " ++ t
  | missingLabel => "EQU needs a label"
  | outOfRange v bits => "value " ++ v.repr ++ " does not fit in " ++ bits.repr ++ " bits"
  | unterminatedString => "unterminated string"
  | originBackwards a => "ORG " ++ Hex.word a ++ "H is below the current address"
  | addressOverflow => "program runs past the end of memory"

structure Diagnostic where
  line : Nat
  fault : Fault
  deriving DecidableEq, Repr

def Diagnostic.message (d : Diagnostic) : String :=
  d.fault.message

/-- The diagnostic as it is shown to the user. -/
def Diagnostic.text (d : Diagnostic) : String :=
  "line " ++ d.line.repr ++ ": " ++ d.message

end Cpm80.Assembler
