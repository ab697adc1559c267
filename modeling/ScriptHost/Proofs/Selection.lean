import ScriptHost.Host.Holdings

/-! Which byte string the words of a load stand for, said as a relation. The host's choice decides
this relation, and its refusal tells why nothing stands there. -/

namespace ScriptHost.Holdings

variable {holdings : Holdings} {resource : Resource} {index source field : UInt64}

/-- The byte strings that are held under a resource and its words. What belongs to the transaction
or the running script is held whatever the words are. -/
inductive Stores (holdings : Holdings) (index source field : UInt64) : Resource → Bytes → Prop where
  | transaction : Stores holdings index source field .transaction holdings.transaction
  | script : Stores holdings index source field .script holdings.script
  | txHash : Stores holdings index source field .txHash holdings.txHash
  | scriptHash : Stores holdings index source field .scriptHash holdings.scriptHash
  | cell {item : Item} (hi : holdings.cells.get? source index = some item) :
      Stores holdings index source field .cell item.bytes
  | cellData {item : Item} (hi : holdings.cells.get? source index = some item) :
      Stores holdings index source field .cellData item.data
  | input {item : Item} (hi : holdings.inputs.get? source index = some item) :
      Stores holdings index source field .input item.bytes
  | header {item : Item} (hi : holdings.headers.get? source index = some item) :
      Stores holdings index source field .header item.bytes
  | witness {bytes : Bytes} (hi : holdings.witnesses.get? source index = some bytes) :
      Stores holdings index source field .witness bytes
  | cellField {item : Item} {bytes : Bytes} (hi : holdings.cells.get? source index = some item)
      (hf : item.field? field = some bytes) : Stores holdings index source field .cellField bytes
  | inputField {item : Item} {bytes : Bytes} (hi : holdings.inputs.get? source index = some item)
      (hf : item.field? field = some bytes) : Stores holdings index source field .inputField bytes
  | headerField {item : Item} {bytes : Bytes} (hi : holdings.headers.get? source index = some item)
      (hf : item.field? field = some bytes) : Stores holdings index source field .headerField bytes

/-- A header is there that lacks the field which the load is about. -/
def LacksField (holdings : Holdings) (resource : Resource) (index source field : UInt64) : Prop :=
  resource = .headerField ∧
    ∃ header, holdings.headers.get? source index = some header ∧ header.field? field = none

theorem found_eq_ok_iff {α : Type} {absence : HostError} {value? : Option α} {value : α} :
    found absence value? = .ok value ↔ value? = some value := by
  cases value? <;> simp [found]

theorem found_eq_error_iff {α : Type} {absence error : HostError} {value? : Option α} :
    found absence value? = .error error ↔ value? = none ∧ error = absence := by
  cases value? <;> simp [found, eq_comm]

/-- The host chooses exactly what is held. -/
theorem select_eq_ok_iff {bytes : Bytes} :
    holdings.select resource index source field = .ok bytes ↔
      holdings.Stores index source field resource bytes := by
  constructor
  · intro h
    cases resource with
    | transaction => exact Except.ok.inj h ▸ .transaction
    | script => exact Except.ok.inj h ▸ .script
    | txHash => exact Except.ok.inj h ▸ .txHash
    | scriptHash => exact Except.ok.inj h ▸ .scriptHash
    | cell =>
      obtain ⟨item, hi, rfl⟩ := Option.map_eq_some_iff.mp (found_eq_ok_iff.mp h)
      exact .cell hi
    | cellData =>
      obtain ⟨item, hi, rfl⟩ := Option.map_eq_some_iff.mp (found_eq_ok_iff.mp h)
      exact .cellData hi
    | input =>
      obtain ⟨item, hi, rfl⟩ := Option.map_eq_some_iff.mp (found_eq_ok_iff.mp h)
      exact .input hi
    | header =>
      obtain ⟨item, hi, rfl⟩ := Option.map_eq_some_iff.mp (found_eq_ok_iff.mp h)
      exact .header hi
    | witness => exact .witness (found_eq_ok_iff.mp h)
    | cellField =>
      obtain ⟨item, hi, hf⟩ := Option.bind_eq_some_iff.mp (found_eq_ok_iff.mp h)
      exact .cellField hi hf
    | inputField =>
      obtain ⟨item, hi, hf⟩ := Option.bind_eq_some_iff.mp (found_eq_ok_iff.mp h)
      exact .inputField hi hf
    | headerField =>
      simp only [select] at h
      split at h
      · next header hi => exact .headerField hi (found_eq_ok_iff.mp h)
      · cases h
  · intro h
    cases h with
    | transaction | script | txHash | scriptHash => rfl
    | cell hi | cellData hi | input hi | header hi | witness hi => simp only [select, hi]; rfl
    | cellField hi hf | inputField hi hf | headerField hi hf =>
      simp only [select, hi, hf, Option.bind_some, found]

theorem select_error_cases {error : HostError}
    (h : holdings.select resource index source field = .error error) :
    error = .itemMissing ∨
      error = .wrongFormat ∧ holdings.LacksField resource index source field := by
  cases resource with
  | transaction | script | txHash | scriptHash => cases h
  | cell | cellData | input | header | witness | cellField | inputField =>
    left
    exact (found_eq_error_iff.mp h).2
  | headerField =>
    simp only [select] at h
    split at h
    · next header hi =>
      obtain ⟨hf, he⟩ := found_eq_error_iff.mp h
      right
      exact ⟨he, rfl, header, hi, hf⟩
    · left
      exact (Except.error.inj h).symm

theorem select_of_lacksField (h : holdings.LacksField resource index source field) :
    holdings.select resource index source field = .error .wrongFormat := by
  obtain ⟨rfl, header, hi, hf⟩ := h
  simp only [select, hi, hf, found]

/-- What is neither held nor a header without its field is missing. -/
theorem select_of_absent (ha : ∀ bytes, ¬ holdings.Stores index source field resource bytes)
    (hl : ¬ holdings.LacksField resource index source field) :
    holdings.select resource index source field = .error .itemMissing := by
  cases h : holdings.select resource index source field with
  | ok bytes =>
    have hstores := select_eq_ok_iff.mp h
    exact absurd hstores (ha bytes)
  | error error =>
    rcases select_error_cases h with rfl | ⟨_, hlacks⟩
    · rfl
    · exact absurd hlacks hl

/-- The number of items under a source that the loads of a resource count in. -/
def itemCount (holdings : Holdings) (resource : Resource) (source : UInt64) : Nat :=
  match resource with
  | .cell | .cellData | .cellField => (holdings.cells.items source).length
  | .input | .inputField => (holdings.inputs.items source).length
  | .header | .headerField => (holdings.headers.items source).length
  | .witness => (holdings.witnesses.items source).length
  | .transaction | .script | .txHash | .scriptHash => 0

/-- What the loads of a resource select for one item under a source after another. -/
def selections (holdings : Holdings) (resource : Resource) (source field : UInt64) :
    List (Except HostError Bytes) :=
  match resource with
  | .cell => (holdings.cells.items source).map fun item => .ok item.bytes
  | .cellData => (holdings.cells.items source).map fun item => .ok item.data
  | .input => (holdings.inputs.items source).map fun item => .ok item.bytes
  | .header => (holdings.headers.items source).map fun item => .ok item.bytes
  | .witness => (holdings.witnesses.items source).map .ok
  | .cellField =>
    (holdings.cells.items source).map fun item => found .itemMissing (item.field? field)
  | .inputField =>
    (holdings.inputs.items source).map fun item => found .itemMissing (item.field? field)
  | .headerField =>
    (holdings.headers.items source).map fun item => found .wrongFormat (item.field? field)
  | .transaction | .script | .txHash | .scriptHash => []

theorem length_selections :
    (holdings.selections resource source field).length = holdings.itemCount resource source := by
  cases resource <;> first | exact List.length_map _ | rfl

/-- Where there are items, a load counts in them, and behind them nothing is there. -/
theorem select_eq_selections
    (hr : resource ∉ [.transaction, .script, .txHash, .scriptHash]) :
    holdings.select resource index source field =
      ((holdings.selections resource source field)[index.toNat]?).getD (.error .itemMissing) := by
  cases resource with
  | transaction | script | txHash | scriptHash => exact absurd (by decide) hr
  | cell | cellData | cellField =>
    simp only [select, selections, Store.get?, List.getElem?_map]
    cases (holdings.cells.items source)[index.toNat]? <;> rfl
  | input | inputField =>
    simp only [select, selections, Store.get?, List.getElem?_map]
    cases (holdings.inputs.items source)[index.toNat]? <;> rfl
  | header | headerField =>
    simp only [select, selections, Store.get?, List.getElem?_map]
    cases (holdings.headers.items source)[index.toNat]? <;> rfl
  | witness =>
    simp only [select, selections, Store.get?, List.getElem?_map]
    cases (holdings.witnesses.items source)[index.toNat]? <;> rfl

end ScriptHost.Holdings
