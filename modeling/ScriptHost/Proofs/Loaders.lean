import ScriptHost.Proofs.Loading
import ScriptHost.Session.Action

/-! The loaders of single byte strings, as a table. A row says which byte string a loader is for, the
number and the words of its call, and the form of its answer. The programs that run are held to the
table, and what is said of a loader is said in the terms of its row. -/

namespace ScriptHost

/-- The number of bytes that a form has to have, if it has to have one. -/
def Form.width? : Form → Option Nat
  | .bytes => none
  | .word => some 8
  | .digest => some 32

/-- A row of the table. -/
structure Entry where
  resource : Resource
  /-- The number of the call. -/
  number : UInt64
  /-- The field word, zero for a whole item. -/
  field : UInt64
  form : Form

/-- The rows of the questions. -/
def Query.entry : Query → Entry
  | cell => ⟨.cell, 2071, 0, .bytes⟩
  | input => ⟨.input, 2073, 0, .bytes⟩
  | header => ⟨.header, 2072, 0, .bytes⟩
  | witness => ⟨.witness, 2074, 0, .bytes⟩
  | cellData => ⟨.cellData, 2092, 0, .bytes⟩
  | cellLock => ⟨.cellField, 2081, 2, .bytes⟩
  | inputOutPoint => ⟨.inputField, 2083, 0, .bytes⟩
  | cellCapacity => ⟨.cellField, 2081, 0, .word⟩
  | cellOccupiedCapacity => ⟨.cellField, 2081, 6, .word⟩
  | inputSince => ⟨.inputField, 2083, 1, .word⟩
  | headerEpochNumber => ⟨.headerField, 2082, 0, .word⟩
  | headerEpochStartBlockNumber => ⟨.headerField, 2082, 1, .word⟩
  | headerEpochLength => ⟨.headerField, 2082, 2, .word⟩
  | cellLockHash => ⟨.cellField, 2081, 3, .digest⟩
  | cellTypeHash => ⟨.cellField, 2081, 5, .digest⟩
  | cellDataHash => ⟨.cellField, 2081, 1, .digest⟩

theorem Query.form_eq (query : Query) : query.form = query.entry.form := by
  cases query <;> rfl

/-- The words of the sources. The top byte of a group's is one. -/
def Source.entry : Source → UInt64
  | input => 1
  | output => 2
  | cellDep => 3
  | headerDep => 4
  | groupInput => 0x0100000000000001
  | groupOutput => 0x0100000000000002

theorem Source.word_eq (source : Source) : source.word = source.entry := by
  cases source <;> rfl

theorem Resource.number_injective {left right : Resource} (h : left.number = right.number) :
    left = right := by
  apply Option.some.inj
  rw [← ofNumber?_number left, h, ofNumber?_number]

namespace Target

/-- The loads into a caller's buffer, each with the number of its call and the words it hands over.
A word that a load has no use for is zero. -/
inductive HandsOver : Target → (number index source field : UInt64) → Prop where
  | transaction : HandsOver .transaction 2051 0 0 0
  | script : HandsOver .script 2052 0 0 0
  | cell (i : UInt64) (s : Source) : HandsOver (.cell i s) 2071 i s.word 0
  | header (i : UInt64) (s : Source) : HandsOver (.header i s) 2072 i s.word 0
  | input (i : UInt64) (s : Source) : HandsOver (.input i s) 2073 i s.word 0
  | witness (i : UInt64) (s : Source) : HandsOver (.witness i s) 2074 i s.word 0
  | cellField (i : UInt64) (s : Source) (f : CellField) :
      HandsOver (.cellField i s f) 2081 i s.word f.word
  | headerField (i : UInt64) (s : Source) (f : HeaderField) :
      HandsOver (.headerField i s f) 2082 i s.word f.word
  | inputField (i : UInt64) (s : Source) (f : InputField) :
      HandsOver (.inputField i s f) 2083 i s.word f.word
  | cellData (i : UInt64) (s : Source) : HandsOver (.cellData i s) 2092 i s.word 0

variable {target : Target} {number index source field : UInt64}

theorem HandsOver.words (h : target.HandsOver number index source field) :
    target.resource.number = number ∧ target.index = index ∧ target.source = source ∧
      target.field = field := by
  cases h <;> exact ⟨rfl, rfl, rfl, rfl⟩

theorem HandsOver.ofTarget_eq (h : target.HandsOver number index source field) (capacity : Nat)
    (offset : UInt64) :
    Call.ofTarget target capacity offset = .load number capacity offset index source field := by
  obtain ⟨hnumber, hindex, hsource, hfield⟩ := h.words
  rw [Call.ofTarget, hnumber, hindex, hsource, hfield]

end Target

/-- What is read from a byte string can be read before or after it is made an answer. -/
theorem Program.bind_map_ofExcept {α β : Type} (program : Program (Except HostError α))
    (part : α → β) (toValue : β → Session.Value) :
    ((program.bind fun result => .done (result.map part)).bind fun result =>
        .done (Session.Answer.ofExcept toValue result)) =
      program.bind fun result => .done (.ofExcept (toValue ∘ part) result) := by
  rw [bind_assoc]
  congr 1
  funext result
  cases result <;> rfl

namespace Session

/-- A loader of a byte string that it allocates the room for. -/
inductive Loader where
  | txHash
  | scriptHash
  | script
  | transaction
  | item (query : Query) (index : UInt64) (source : Source)

namespace Loader

/-- The action that runs a loader. -/
def action : Loader → Action
  | txHash => .loadTxHash
  | scriptHash => .loadScriptHash
  | script => .loadScript
  | transaction => .loadTransaction
  | item query index source => .ask query index source

/-- The row of a loader. -/
def entry : Loader → Entry
  | txHash => ⟨.txHash, 2061, 0, .digest⟩
  | scriptHash => ⟨.scriptHash, 2062, 0, .digest⟩
  | script => ⟨.script, 2052, 0, .bytes⟩
  | transaction => ⟨.transaction, 2051, 0, .bytes⟩
  | item query .. => query.entry

/-- The index word that a loader hands over, zero where there is nothing to count. -/
def index : Loader → UInt64
  | item _ index _ => index
  | _ => 0

/-- The source word that a loader hands over, zero where there is nothing to count. -/
def source : Loader → UInt64
  | item _ _ source => source.entry
  | _ => 0

/-- The call of a loader into a buffer of its own. -/
def call (loader : Loader) (capacity : Nat) (offset : UInt64) : Call :=
  .load loader.entry.number capacity offset loader.index loader.source loader.entry.field

/-- A byte string is what a loader is for. -/
def Finds (loader : Loader) (holdings : Holdings) (item : Bytes) : Prop :=
  holdings.Stores loader.index loader.source loader.entry.field loader.entry.resource item

/-- A loader is for a field that a header lacks. -/
def LacksField (loader : Loader) (holdings : Holdings) : Prop :=
  holdings.LacksField loader.entry.resource loader.index loader.source loader.entry.field

/-- The load of a target into a caller's buffer is for the byte string that a loader is for. -/
def Shares (loader : Loader) (target : Target) : Prop :=
  target.HandsOver loader.entry.number loader.index loader.source loader.entry.field

/-- The target of the program that runs a loader. -/
def target : Loader → Target
  | txHash => .txHash
  | scriptHash => .scriptHash
  | script => .script
  | transaction => .transaction
  | item query index source => query.target index source

/-- A target has the words of a loader's row. -/
structure Fits (loader : Loader) (target : Target) : Prop where
  resource : target.resource = loader.entry.resource
  index : target.index = loader.index
  source : target.source = loader.source
  field : target.field = loader.entry.field

variable {loader : Loader} {target : Target} {holdings : Holdings}

theorem fits_target (loader : Loader) : loader.Fits loader.target := by
  cases loader with
  | txHash | scriptHash | script | transaction => exact ⟨rfl, rfl, rfl, rfl⟩
  | item query index source =>
    have hsource := source.word_eq
    cases query <;> exact ⟨rfl, rfl, hsource, rfl⟩

theorem number_resource (loader : Loader) :
    loader.entry.resource.number = loader.entry.number := by
  cases loader with
  | txHash | scriptHash | script | transaction => rfl
  | item query index source => cases query <;> rfl

theorem Shares.fits (h : loader.Shares target) : loader.Fits target := by
  obtain ⟨hnumber, hindex, hsource, hfield⟩ := h.words
  have hresource : target.resource = loader.entry.resource := by
    apply Resource.number_injective
    rw [hnumber, number_resource]
  exact ⟨hresource, hindex, hsource, hfield⟩

/-- Whatever brings bytes of any length can be loaded into a caller's buffer, too. -/
theorem exists_shares (h : loader.entry.form = .bytes) : ∃ target, loader.Shares target := by
  cases loader with
  | txHash | scriptHash => cases h
  | script => exact ⟨.script, .script⟩
  | transaction => exact ⟨.transaction, .transaction⟩
  | item query index source =>
    refine ⟨query.target index source, ?_⟩
    rw [Shares, Loader.source, ← source.word_eq]
    cases query <;> constructor

theorem Fits.ofTarget_eq (h : loader.Fits target) (capacity : Nat) (offset : UInt64) :
    Call.ofTarget target capacity offset = loader.call capacity offset := by
  rw [Call.ofTarget, h.resource, number_resource, h.index, h.source, h.field, call]

theorem Fits.read_eq (h : loader.Fits target) (holdings : Holdings) :
    holdings.read target =
      holdings.select loader.entry.resource loader.index loader.source loader.entry.field := by
  rw [Holdings.read, h.resource, h.index, h.source, h.field]

theorem Fits.read_of_finds (h : loader.Fits target) {item : Bytes}
    (hi : loader.Finds holdings item) : holdings.read target = .ok item := by
  rw [h.read_eq]
  exact Holdings.select_eq_ok_iff.mpr hi

theorem Fits.read_of_lacksField (h : loader.Fits target) (hl : loader.LacksField holdings) :
    holdings.read target = .error .wrongFormat := by
  rw [h.read_eq]
  exact Holdings.select_of_lacksField hl

theorem Fits.read_of_absent (h : loader.Fits target)
    (habsent : ∀ item, ¬ loader.Finds holdings item) (hl : ¬ loader.LacksField holdings) :
    holdings.read target = .error .itemMissing := by
  rw [h.read_eq]
  exact Holdings.select_of_absent habsent hl

/-- No bytes of any length are asked of a field of a header. -/
theorem not_lacksField (h : loader.entry.form = .bytes) : ¬ loader.LacksField holdings := by
  intro hl
  have hheader : loader.entry.resource = .headerField := hl.1
  cases loader with
  | txHash | scriptHash | script | transaction => cases hheader
  | item query index source => cases query <;> cases h <;> cases hheader

end Loader

end Session

end ScriptHost
