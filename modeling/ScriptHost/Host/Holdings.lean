import ScriptHost.Bytes
import ScriptHost.HostError
import ScriptHost.Host.Store
import ScriptHost.Resource

/-!
What a host holds about the transaction under verification, and the choice of the byte string that a
call is about.
-/

namespace ScriptHost

/-- A cell, a header or an input: its serialized form, its data and its fields. -/
structure Item where
  bytes : Bytes
  data : Bytes := []
  fields : List (UInt64 × Bytes) := []
deriving DecidableEq, Repr

/-- The value of a field. Where a field word is repeated the last value holds. -/
def Item.field? (item : Item) (field : UInt64) : Option Bytes :=
  item.fields.reverse.lookup field

/-- The transaction under verification, the running script, and the items they refer to. -/
structure Holdings where
  txHash : Bytes := List.replicate 32 0x11
  scriptHash : Bytes := List.replicate 32 0x22
  script : Bytes := []
  transaction : Bytes := []
  cells : Store Item := .empty
  inputs : Store Item := .empty
  headers : Store Item := .empty
  witnesses : Store Bytes := .empty
deriving DecidableEq, Repr

namespace Holdings

/-- What a look-up finds, or the refusal that stands for its absence. -/
def found {α : Type} (absence : HostError) : Option α → Except HostError α
  | some value => .ok value
  | none => .error absence

/-- The byte string that a resource and its selector words stand for. -/
def select (holdings : Holdings) (resource : Resource) (index source field : UInt64) :
    Except HostError Bytes :=
  match resource with
  | .transaction => .ok holdings.transaction
  | .script => .ok holdings.script
  | .txHash => .ok holdings.txHash
  | .scriptHash => .ok holdings.scriptHash
  | .cell => found .itemMissing ((holdings.cells.get? source index).map (·.bytes))
  | .cellData => found .itemMissing ((holdings.cells.get? source index).map (·.data))
  | .header => found .itemMissing ((holdings.headers.get? source index).map (·.bytes))
  | .input => found .itemMissing ((holdings.inputs.get? source index).map (·.bytes))
  | .witness => found .itemMissing (holdings.witnesses.get? source index)
  | .cellField => found .itemMissing ((holdings.cells.get? source index).bind (·.field? field))
  | .inputField => found .itemMissing ((holdings.inputs.get? source index).bind (·.field? field))
  -- An absent field is missing like an absent item, but a header without it has the wrong format.
  | .headerField =>
    match holdings.headers.get? source index with
    | some header => found .wrongFormat (header.field? field)
    | none => .error .itemMissing

/-- The bytes that a program would be taken from: a witness for the witness word, and cell data for
every other place word. -/
def program? (holdings : Holdings) (index source place : UInt64) : Option Bytes :=
  if place = Place.witness.word then holdings.witnesses.get? source index
  else (holdings.cells.get? source index).map (·.data)

end Holdings

end ScriptHost
