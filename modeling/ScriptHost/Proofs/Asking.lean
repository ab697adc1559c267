import ScriptHost.Proofs.WholeLoad

/-! Loads of a known width, and the answers to questions about single items. A question is answered
from the byte string that it is about and from nothing else. -/

namespace ScriptHost

namespace Program

variable {host : Host} {target : Target} {width : Nat}

/-- How a load of a known width ends, given what it selects. -/
def exactOutcome (width : Nat) :
    Except HostError Bytes → Except Fatal (Except HostError { b : Bytes // b.length = width })
  | .error error => .ok (.error error)
  | .ok item => if h : item.length = width then .ok (.ok ⟨item, h⟩) else .error (.exited abortCode)

/-- The calls of a load of a known width. -/
def exactCalls (target : Target) (width : Nat) : Except HostError Bytes → List Call
  | .error _ => [.ofTarget target width 0]
  | .ok item =>
    if item.length = width then [.ofTarget target width 0]
    else [.ofTarget target width 0, exitCall abortCode]

theorem loadExact_yields (hf : host.forced = none) (hs : host.Steady target.resource) :
    (loadExact target width).Yields host (exactOutcome width (host.holdings.read target))
      (exactCalls target width (host.holdings.read target)) := by
  have hload := load_yields hf hs (Bytes.zeros width) 0
  rw [ofTarget_zeros] at hload
  rw [loadExact, bind_eq]
  cases hread : host.holdings.read target with
  | error error =>
    rw [hread] at hload
    exact hload.bind (Yields.done _ host)
  | ok item =>
    rw [hread] at hload
    by_cases hwidth : item.length = width
    · rw [exactCalls, exactOutcome, if_pos hwidth, dif_pos hwidth]
      apply hload.bind
      have hfills : 0 + width ≤ item.length := by omega
      have hbuffer : Bytes.overwrite (Bytes.zeros width)
          (Bytes.window item 0 (Bytes.zeros width).length) = item := by
        rw [Bytes.overwrite_zeros_window hfills, ← hwidth, List.drop_zero, List.take_length]
      simp only [Loaded.ofSelected, Delivery.ofSelected, Except.map, if_pos hwidth,
        UInt64.toNat_zero, hbuffer]
      exact Yields.done _ host
    · rw [exactCalls, exactOutcome, if_neg hwidth, dif_neg hwidth]
      apply hload.bind
      simp only [Loaded.ofSelected, Except.map, if_neg hwidth]
      exact abort_yields hf

theorem loadWord_yields (hf : host.forced = none) (hs : host.Steady target.resource) :
    (loadWord target).Yields host
      ((exactOutcome 8 (host.holdings.read target)).map fun answer =>
        answer.map fun bytes => UInt64.ofNat (Bytes.littleEndian bytes.1))
      (exactCalls target 8 (host.holdings.read target)) :=
  (loadExact_yields hf hs).map _

theorem loadDigest_yields (hf : host.forced = none) (hs : host.Steady target.resource) :
    (loadDigest target).Yields host
      ((exactOutcome 32 (host.holdings.read target)).map fun answer =>
        answer.map fun bytes => ⟨bytes.1, bytes.2⟩)
      (exactCalls target 32 (host.holdings.read target)) :=
  (loadExact_yields hf hs).map _

end Program

namespace Query

variable {host : Host} {query : Query}

/-- The answer that a byte string gives to a question, if it has a fitting width. -/
def decode (query : Query) (item : Bytes) : Option Datum :=
  match query.form with
  | .bytes => some (.bytes item)
  | .word => if item.length = 8 then some (.word (UInt64.ofNat (Bytes.littleEndian item))) else none
  | .digest => if h : item.length = 32 then some (.digest ⟨item, h⟩) else none

/-- How a question ends, given what it selects. -/
def outcome (query : Query) : Except HostError Bytes → Except Fatal (Except HostError Datum)
  | .error error => .ok (.error error)
  | .ok item =>
    match query.decode item with
    | some datum => .ok (.ok datum)
    | none => .error (.exited Program.abortCode)

/-- The calls of a question about a target, given what it selects. -/
def calls (query : Query) (target : Target) (selected : Except HostError Bytes) : List Call :=
  match query.form with
  | .bytes => Program.wholeCalls target selected
  | .word => Program.exactCalls target 8 selected
  | .digest => Program.exactCalls target 32 selected

/-- What a question about an index selects. -/
def selected (query : Query) (holdings : Holdings) (index : UInt64) (source : Source) :
    Except HostError Bytes :=
  holdings.read (query.target index source)

theorem steady_target (query : Query) (host : Host) (index : UInt64) (source : Source) :
    host.Steady (query.target index source).resource := by
  intro h
  cases query <;> cases h

theorem outcome_of_bytes (h : query.form = .bytes) (selected : Except HostError Bytes) :
    query.outcome selected = .ok (selected.map .bytes) := by
  cases selected with
  | error error => rfl
  | ok item => simp only [outcome, decode, h, Except.map]

/-- Where the answer needs a width, the question ends as the load of that width does. -/
theorem outcome_of_width {width : Nat} {α : Type} {value : { b : Bytes // b.length = width } → α}
    {datum : α → Datum}
    (hdecode : ∀ item, query.decode item =
      if h : item.length = width then some (datum (value ⟨item, h⟩)) else none)
    (selected : Except HostError Bytes) :
    query.outcome selected =
      ((Program.exactOutcome width selected).map fun answer => answer.map value).map fun answer =>
        answer.map datum := by
  cases selected with
  | error error => rfl
  | ok item =>
    rw [outcome, hdecode, Program.exactOutcome]
    by_cases h : item.length = width
    · rw [dif_pos h, dif_pos h]
      rfl
    · rw [dif_neg h, dif_neg h]
      rfl

theorem load_yields (hf : host.forced = none) (query : Query) (index : UInt64) (source : Source) :
    (query.load index source).Yields host
      (query.outcome (query.selected host.holdings index source))
      (query.calls (query.target index source) (query.selected host.holdings index source)) := by
  have hsteady := query.steady_target host index source
  rw [selected]
  cases hform : query.form with
  | bytes =>
    have hload := (Program.loadWhole_yields hf hsteady).map fun answer => answer.map Datum.bytes
    simp only [load, calls, hform, outcome_of_bytes hform]
    exact hload
  | word =>
    have hload := (Program.loadWord_yields hf hsteady).map fun answer => answer.map Datum.word
    have hdecode (item : Bytes) : query.decode item = if _ : item.length = 8 then
        some (.word (UInt64.ofNat (Bytes.littleEndian item))) else none := by
      simp only [decode, hform, dite_eq_ite]
    rw [← outcome_of_width hdecode] at hload
    simp only [load, calls, hform]
    exact hload
  | digest =>
    have hload := (Program.loadDigest_yields hf hsteady).map fun answer => answer.map Datum.digest
    have hdecode (item : Bytes) : query.decode item = if h : item.length = 32 then
        some (.digest ⟨item, h⟩) else none := by
      simp only [decode, hform]
    rw [← outcome_of_width hdecode] at hload
    simp only [load, calls, hform]
    exact hload

/-- What a question selects for one item of a source after another. -/
def selections (query : Query) (holdings : Holdings) (source : Source) :
    List (Except HostError Bytes) :=
  holdings.selections (query.target 0 source).resource source.word (query.target 0 source).field

/-- The number of items of a source that a question can be asked about. -/
def itemCount (query : Query) (holdings : Holdings) (source : Source) : Nat :=
  holdings.itemCount query.entry.resource source.entry

theorem length_selections (query : Query) (holdings : Holdings) (source : Source) :
    (query.selections holdings source).length = query.itemCount holdings source := by
  have hfits := (Session.Loader.item query 0 source).fits_target
  have hresource : (query.target 0 source).resource = query.entry.resource := hfits.resource
  rw [selections, Holdings.length_selections, itemCount, hresource, source.word_eq]

theorem selected_eq (query : Query) (holdings : Holdings) (index : UInt64) (source : Source) :
    query.selected holdings index source =
      ((query.selections holdings source)[index.toNat]?).getD (.error .itemMissing) := by
  have hcounted : (query.target index source).resource ∉
      [.transaction, .script, .txHash, .scriptHash] := by
    cases query <;> simp [target, Target.resource]
  have hselect : query.selected holdings index source = _ :=
    Holdings.select_eq_selections hcounted
  rw [hselect]
  cases query <;> rfl

end Query

end ScriptHost
