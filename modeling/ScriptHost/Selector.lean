/-!
The words that select a part of the transaction: which list of items, which field of an item, and
whether a program is taken from cell data or from a witness.
-/

namespace ScriptHost

/-- The list that an index counts in. A group holds the items that share the running script. -/
inductive Source where
  | input
  | output
  | cellDep
  | headerDep
  | groupInput
  | groupOutput
deriving DecidableEq, Repr

inductive CellField where
  | capacity
  | dataHash
  | lock
  | lockHash
  | type
  | typeHash
  | occupiedCapacity
deriving DecidableEq, Repr

inductive HeaderField where
  | epochNumber
  | epochStartBlockNumber
  | epochLength
deriving DecidableEq, Repr

inductive InputField where
  | outPoint
  | since
deriving DecidableEq, Repr

/-- Where the bytes of a program come from. -/
inductive Place where
  | cellData
  | witness
deriving DecidableEq, Repr

namespace Source

/-- The word that stands for a source. -/
def word : Source → UInt64
  | input => 1
  | output => 2
  | cellDep => 3
  | headerDep => 4
  -- The words of a group have their top byte set to one.
  | groupInput => 0x0100000000000001
  | groupOutput => 0x0100000000000002

/-- The name of a source, as debug messages show it. -/
def name : Source → String
  | input => "Input"
  | output => "Output"
  | cellDep => "CellDep"
  | headerDep => "HeaderDep"
  | groupInput => "GroupInput"
  | groupOutput => "GroupOutput"

def all : List Source :=
  [input, output, cellDep, headerDep, groupInput, groupOutput]

end Source

namespace CellField

def word : CellField → UInt64
  | capacity => 0
  | dataHash => 1
  | lock => 2
  | lockHash => 3
  | type => 4
  | typeHash => 5
  | occupiedCapacity => 6

def name : CellField → String
  | capacity => "Capacity"
  | dataHash => "DataHash"
  | lock => "Lock"
  | lockHash => "LockHash"
  | type => "Type"
  | typeHash => "TypeHash"
  | occupiedCapacity => "OccupiedCapacity"

def all : List CellField :=
  [capacity, dataHash, lock, lockHash, type, typeHash, occupiedCapacity]

end CellField

namespace HeaderField

def word : HeaderField → UInt64
  | epochNumber => 0
  | epochStartBlockNumber => 1
  | epochLength => 2

def name : HeaderField → String
  | epochNumber => "EpochNumber"
  | epochStartBlockNumber => "EpochStartBlockNumber"
  | epochLength => "EpochLength"

def all : List HeaderField :=
  [epochNumber, epochStartBlockNumber, epochLength]

end HeaderField

namespace InputField

def word : InputField → UInt64
  | outPoint => 0
  | since => 1

def name : InputField → String
  | outPoint => "OutPoint"
  | since => "Since"

def all : List InputField :=
  [outPoint, since]

end InputField

namespace Place

def word : Place → UInt64
  | cellData => 0
  | witness => 1

def name : Place → String
  | cellData => "CellData"
  | witness => "Witness"

def all : List Place :=
  [cellData, witness]

end Place

end ScriptHost
