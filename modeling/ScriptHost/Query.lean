import ScriptHost.Load

/-! The questions that can be asked of one item after another, each with the form of its answer. -/

namespace ScriptHost

/-- A question about the item at an index. -/
inductive Query where
  | cell
  | input
  | header
  | witness
  | cellData
  | cellLock
  | inputOutPoint
  | cellCapacity
  | cellOccupiedCapacity
  | inputSince
  | headerEpochNumber
  | headerEpochStartBlockNumber
  | headerEpochLength
  | cellLockHash
  | cellTypeHash
  | cellDataHash
deriving DecidableEq, Repr

inductive Datum where
  | bytes (value : Bytes)
  | word (value : UInt64)
  | digest (value : Digest)
deriving DecidableEq, Repr

/-- The form of an answer. Words and digests have a width that an item must have. -/
inductive Form where
  | bytes
  | word
  | digest
deriving DecidableEq, Repr

namespace Query

/-- The byte string that a question is about. -/
def target (query : Query) (index : UInt64) (source : Source) : Target :=
  match query with
  | cell => .cell index source
  | input => .input index source
  | header => .header index source
  | witness => .witness index source
  | cellData => .cellData index source
  | cellLock => .cellField index source .lock
  | inputOutPoint => .inputField index source .outPoint
  | cellCapacity => .cellField index source .capacity
  | cellOccupiedCapacity => .cellField index source .occupiedCapacity
  | inputSince => .inputField index source .since
  | headerEpochNumber => .headerField index source .epochNumber
  | headerEpochStartBlockNumber => .headerField index source .epochStartBlockNumber
  | headerEpochLength => .headerField index source .epochLength
  | cellLockHash => .cellField index source .lockHash
  | cellTypeHash => .cellField index source .typeHash
  | cellDataHash => .cellField index source .dataHash

def form : Query → Form
  | cell | input | header | witness | cellData | cellLock | inputOutPoint => .bytes
  | cellCapacity | cellOccupiedCapacity | inputSince => .word
  | headerEpochNumber | headerEpochStartBlockNumber | headerEpochLength => .word
  | cellLockHash | cellTypeHash | cellDataHash => .digest

def load (query : Query) (index : UInt64) (source : Source) :
    Program (Except HostError Datum) := do
  let target := query.target index source
  match query.form with
  | .bytes => return (← Program.loadWhole target).map .bytes
  | .word => return (← Program.loadWord target).map .word
  | .digest => return (← Program.loadDigest target).map .digest

end Query

end ScriptHost
