import ScriptHost.Host.Basic

/-! Changes that are made to a host from outside, between the runs of programs. -/

namespace ScriptHost.Session

/-- A change to a host. -/
inductive Setup where
  | txHash (bytes : Bytes)
  | scriptHash (bytes : Bytes)
  | script (bytes : Bytes)
  | transaction (bytes : Bytes)
  | nextScript (bytes : Bytes)
  | vmVersion (value : UInt64)
  | cycles (value : UInt64)
  | forced (result : UInt64)
  | cell (source : UInt64) (item : Item)
  | input (source : UInt64) (item : Item)
  | header (source : UInt64) (item : Item)
  | witness (source : UInt64) (bytes : Bytes)
  | clearCalls
deriving DecidableEq, Repr

def Setup.apply (host : Host) : Setup → Host
  | txHash bytes => { host with holdings.txHash := bytes }
  | scriptHash bytes => { host with holdings.scriptHash := bytes }
  | script bytes => { host with holdings.script := bytes }
  | transaction bytes => { host with holdings.transaction := bytes }
  | nextScript bytes => { host with nextScript := some bytes }
  | vmVersion value => { host with vmVersion := value }
  | cycles value => { host with cycles := value.toNat }
  | forced result => { host with forced := some result }
  | cell source item =>
    { host with holdings.cells := host.holdings.cells.push source item }
  | input source item =>
    { host with holdings.inputs := host.holdings.inputs.push source item }
  | header source item =>
    { host with holdings.headers := host.holdings.headers.push source item }
  | witness source bytes =>
    { host with holdings.witnesses := host.holdings.witnesses.push source bytes }
  | clearCalls => { host with calls := [] }

end ScriptHost.Session
