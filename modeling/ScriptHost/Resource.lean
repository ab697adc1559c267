import ScriptHost.Selector

/-!
What a script can load. A resource is a kind of byte string with a call number of its own, and a
target is one such byte string, chosen by the selectors that its kind needs.
-/

namespace ScriptHost

/-- The kinds of byte strings that a host holds. -/
inductive Resource where
  | transaction
  | script
  | txHash
  | scriptHash
  | cell
  | header
  | input
  | witness
  | cellField
  | headerField
  | inputField
  | cellData
deriving DecidableEq, Repr

namespace Resource

/-- The number of the call that loads a resource. -/
def number : Resource → UInt64
  | transaction => 2051
  | script => 2052
  | txHash => 2061
  | scriptHash => 2062
  | cell => 2071
  | header => 2072
  | input => 2073
  | witness => 2074
  | cellField => 2081
  | headerField => 2082
  | inputField => 2083
  | cellData => 2092

def all : List Resource :=
  [transaction, script, txHash, scriptHash, cell, header, input, witness, cellField, headerField,
    inputField, cellData]

/-- The resource that a call number loads. -/
def ofNumber? (number : UInt64) : Option Resource :=
  all.find? (·.number = number)

theorem ofNumber?_number (resource : Resource) : ofNumber? resource.number = some resource := by
  cases resource <;> rfl

end Resource

/-- One byte string of the transaction under verification. -/
inductive Target where
  | transaction
  | script
  | txHash
  | scriptHash
  | cell (index : UInt64) (source : Source)
  | header (index : UInt64) (source : Source)
  | input (index : UInt64) (source : Source)
  | witness (index : UInt64) (source : Source)
  | cellData (index : UInt64) (source : Source)
  | cellField (index : UInt64) (source : Source) (field : CellField)
  | headerField (index : UInt64) (source : Source) (field : HeaderField)
  | inputField (index : UInt64) (source : Source) (field : InputField)
deriving DecidableEq, Repr

namespace Target

def resource : Target → Resource
  | transaction => .transaction
  | script => .script
  | txHash => .txHash
  | scriptHash => .scriptHash
  | cell .. => .cell
  | header .. => .header
  | input .. => .input
  | witness .. => .witness
  | cellData .. => .cellData
  | cellField .. => .cellField
  | headerField .. => .headerField
  | inputField .. => .inputField

/-- The index word of a target, zero where there is nothing to count. -/
def index : Target → UInt64
  | transaction | script | txHash | scriptHash => 0
  | cell i _ | header i _ | input i _ | witness i _ | cellData i _ => i
  | cellField i _ _ | headerField i _ _ | inputField i _ _ => i

/-- The source word of a target, zero where there is nothing to count. -/
def source : Target → UInt64
  | transaction | script | txHash | scriptHash => 0
  | cell _ s | header _ s | input _ s | witness _ s | cellData _ s => s.word
  | cellField _ s _ | headerField _ s _ | inputField _ s _ => s.word

/-- The field word of a target, zero for a whole item. -/
def field : Target → UInt64
  | cellField _ _ f => f.word
  | headerField _ _ f => f.word
  | inputField _ _ f => f.word
  | _ => 0

end Target

end ScriptHost
