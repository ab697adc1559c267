import ScriptHost.Bounds
import ScriptHost.Host.Holdings

/-! The state of an in-memory host: what it holds, and what has been asked of it so far. -/

namespace ScriptHost

/-- A request to replace the running program, with its arguments read as text. -/
structure ExecRecord where
  index : UInt64
  source : UInt64
  place : UInt64
  bounds : Bounds
  arguments : List String
deriving DecidableEq, Repr

structure Host where
  holdings : Holdings := {}
  vmVersion : UInt64 := 1
  /-- The cycles charged so far, which never exceed what a word holds. -/
  cycles : Nat := 0
  /-- The numbers of the calls made, oldest first. -/
  calls : List UInt64 := []
  /-- The messages printed, oldest first. -/
  messages : List String := []
  /-- The requests to replace the program, oldest first. -/
  execs : List ExecRecord := []
  /-- Answers the next call in place of its service. -/
  forced : Option UInt64 := none
  /-- Becomes the script once the script has been loaded. -/
  nextScript : Option Bytes := none
deriving DecidableEq, Repr

namespace Host

def note (host : Host) (number : UInt64) : Host :=
  { host with calls := host.calls ++ [number] }

def cyclesPerCall : Nat := 500

/-- The highest count of cycles that leaves room for a charge in a word. -/
def payable : Nat := UInt64.size - 1 - cyclesPerCall

theorem le_payable_iff (cycles : Nat) : cycles ≤ payable ↔ cycles + 500 < UInt64.size := by
  simp only [payable, cyclesPerCall, UInt64.size]
  omega

def charge (host : Host) : Host :=
  { host with cycles := host.cycles + cyclesPerCall }

/-- The script that is in force after a load of `resource`. -/
def afterLoad (host : Host) (resource : Resource) : Host :=
  match resource, host.nextScript with
  | .script, some next =>
    { host with holdings.script := next, nextScript := none }
  | _, _ => host

theorem afterLoad_of_none {host : Host} (h : host.nextScript = none) (resource : Resource) :
    host.afterLoad resource = host := by
  simp only [afterLoad, h]

end Host

end ScriptHost
