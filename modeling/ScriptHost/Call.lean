import ScriptHost.Bounds
import ScriptHost.Bytes
import ScriptHost.Resource

/-!
The calls that a script makes on its host, and what comes back. A call names the memory that it
hands over by what the host may see of it: a buffer by its capacity, and text by its bytes.
-/

namespace ScriptHost

/-- The six operand words of a call that hands over no memory. -/
structure Operands where
  a0 : UInt64 := 0
  a1 : UInt64 := 0
  a2 : UInt64 := 0
  a3 : UInt64 := 0
  a4 : UInt64 := 0
  a5 : UInt64 := 0
deriving DecidableEq, Repr

inductive Call where
  /-- Loads into a buffer; the capacity stands in a length cell, which the host may set. -/
  | load (number : UInt64) (capacity : Nat) (offset index source field : UInt64)
  /-- Loads a window of cell data as code and clears the rest of the buffer. -/
  | loadCode (capacity : Nat) (offset size index source : UInt64)
  /-- Replaces the running program with one that is taken from cell data or from a witness. -/
  | exec (index source place bounds : UInt64) (arguments : List Bytes)
  /-- Prints the text that starts at an address. -/
  | debug (memory : Bytes)
  /-- Any call on words alone. -/
  | words (number : UInt64) (operands : Operands)
deriving DecidableEq, Repr

/-- What comes back from a call. -/
structure Reply where
  result : UInt64
  /-- The bytes written at the start of the buffer. -/
  written : Bytes := []
  /-- The length cell, if it was set. -/
  length : Option Nat := none
deriving DecidableEq, Repr

namespace Call

def exitNumber : UInt64 := 93

def vmVersionNumber : UInt64 := 2041

def currentCyclesNumber : UInt64 := 2042

def execNumber : UInt64 := 2043

def loadCodeNumber : UInt64 := 2091

def debugNumber : UInt64 := 2177

def number : Call → UInt64
  | load n .. => n
  | loadCode .. => loadCodeNumber
  | exec .. => execNumber
  | debug .. => debugNumber
  | words n _ => n

/-- The call that loads a target from an offset on. -/
def ofTarget (target : Target) (capacity : Nat) (offset : UInt64) : Call :=
  load target.resource.number capacity offset target.index target.source target.field

/-- The operands as a trace shows them: words in decimal, and memory by what it is for. -/
def operandTexts : Call → List String
  | load _ capacity offset index source field =>
    ["buf", toString capacity] ++ [offset, index, source, field].map toString
  | loadCode capacity offset size index source =>
    ["buf", toString capacity] ++ [offset, size, index, source].map toString
  | exec index source place bounds arguments =>
    [index, source, place, bounds].map toString ++ [toString arguments.length, "argv"]
  | debug _ => "msg" :: List.replicate 5 "0"
  | words _ o => [o.a0, o.a1, o.a2, o.a3, o.a4, o.a5].map toString

def toText (call : Call) : String :=
  " ".intercalate (toString call.number :: call.operandTexts)

end Call

end ScriptHost
