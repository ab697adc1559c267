import ScriptHost.Load
import ScriptHost.Proofs.Selection
import ScriptHost.Proofs.Yields

/-! The protocol of a single load: what the host puts into the buffer and the length cell, and what
the caller makes of the result word. -/

namespace ScriptHost

/-- The number of bytes that a load puts into a buffer. -/
def Bytes.reach (item : Bytes) (offset capacity : Nat) : Nat :=
  if item.length ≤ offset then 0 else min capacity (item.length - offset)

theorem Bytes.reach_eq_min (item : Bytes) (offset capacity : Nat) :
    reach item offset capacity = min capacity (item.length - offset) := by
  rw [reach]
  split
  · omega
  · rfl

/-- A buffer after a load starts with the item's bytes from the offset on, as far as the load
reaches, and keeps its own bytes from there. -/
theorem Bytes.overwrite_window (buffer item : Bytes) (offset : Nat) :
    overwrite buffer (window item offset buffer.length) =
      (item.drop offset).take (reach item offset buffer.length) ++
        buffer.drop (reach item offset buffer.length) := by
  have hlength : (window item offset buffer.length).length = reach item offset buffer.length := by
    rw [length_window, reach_eq_min]
  have hfits : (window item offset buffer.length).length ≤ buffer.length := by
    rw [length_window]
    exact Nat.min_le_left _ _
  have htake : (item.drop offset).take (reach item offset buffer.length) =
      window item offset buffer.length := by
    rw [reach_eq_min, ← List.length_drop, ← List.take_take, List.take_length, window]
  calc overwrite buffer (window item offset buffer.length)
      = window item offset buffer.length ++
          buffer.drop (window item offset buffer.length).length := by
        rw [overwrite, List.take_of_length_le hfits]
    _ = (item.drop offset).take (reach item offset buffer.length) ++
          buffer.drop (reach item offset buffer.length) := by
        rw [hlength, htake]

/-- The byte string that a target stands for. -/
def Holdings.read (holdings : Holdings) (target : Target) : Except HostError Bytes :=
  holdings.select target.resource target.index target.source target.field

namespace Host

/-- The answer to a load, given what it selects. -/
def loadReply (selected : Except HostError Bytes) (capacity : Nat) (offset : UInt64) : Reply :=
  match selected with
  | .ok item => deliver item capacity offset
  | .error error => { result := error.code }

theorem afterLoad_of_ne {resource : Resource} (h : resource ≠ .script) (host : Host) :
    host.afterLoad resource = host := by
  cases resource <;> first | rfl | exact absurd rfl h

/-- A load of the resource leaves the script as it is. -/
def Steady (host : Host) (resource : Resource) : Prop :=
  resource = .script → host.nextScript = none

theorem Steady.afterLoad_eq {host : Host} {resource : Resource} (hs : host.Steady resource) :
    host.afterLoad resource = host := by
  by_cases h : resource = .script
  · exact afterLoad_of_none (hs h) resource
  · exact afterLoad_of_ne h host

theorem serve_load (host : Host) (resource : Resource) (capacity : Nat)
    (offset index source field : UInt64) :
    host.serve (.load resource.number capacity offset index source field) =
      (.ok (loadReply (host.holdings.select resource index source field) capacity offset),
        host.afterLoad resource) := by
  simp only [serve, Resource.ofNumber?_number, serveLoad]
  cases h : host.holdings.select resource index source field with
  | ok item => rfl
  | error error =>
    have hne : resource ≠ .script := by
      rintro rfl
      cases h
    simp only [afterLoad_of_ne hne, loadReply]

end Host

/-- What a load leaves with the caller, given what it selects. -/
def Delivery.ofSelected (selected : Except HostError Bytes) (buffer : Bytes) (offset : UInt64) :
    Delivery buffer.length :=
  match selected with
  | .ok item =>
    { result := 0
      length := item.length
      buffer := Bytes.overwrite buffer (Bytes.window item offset.toNat buffer.length)
      length_buffer := Bytes.length_overwrite _ _ }
  | .error error =>
    { result := error.code
      length := buffer.length
      buffer := buffer
      length_buffer := rfl }

/-- What a load leaves with the caller who looks at the result word. -/
def Loaded.ofSelected (selected : Except HostError Bytes) (buffer : Bytes) (offset : UInt64) :
    Loaded buffer.length where
  answer := selected.map List.length
  buffer := (Delivery.ofSelected selected buffer offset).buffer
  length_buffer := (Delivery.ofSelected selected buffer offset).length_buffer

namespace Program

variable {host : Host}

theorem run_loadWords (hf : host.forced = none) (ha : host.Affords 1) (resource : Resource)
    (buffer : Bytes) (offset index source field : UInt64) :
    let call := Call.load resource.number buffer.length offset index source field
    (loadWords resource.number buffer offset index source field).run host =
      ⟨.ok (.ofSelected (host.holdings.select resource index source field) buffer offset), [call],
        (host.spend [call]).afterLoad resource⟩ := by
  intro call
  rw [loadWords, bind_eq, run_bind, run_request hf ha, Host.serve_load, Host.spend_holdings]
  cases host.holdings.select resource index source field with
  | ok item => rfl
  | error error => simp [Host.loadReply, Run.andThen, Delivery.ofSelected, pure_eq, run, call]

theorem run_load (hf : host.forced = none) (ha : host.Affords 1) (target : Target)
    (buffer : Bytes) (offset : UInt64) :
    let call := Call.ofTarget target buffer.length offset
    (load target buffer offset).run host =
      ⟨.ok (.ofSelected (host.holdings.read target) buffer offset), [call],
        (host.spend [call]).afterLoad target.resource⟩ := by
  intro call
  rw [load, bind_eq, run_bind, run_loadWords hf ha, Holdings.read]
  cases host.holdings.select target.resource target.index target.source target.field with
  | ok item => rfl
  | error error =>
    simp only [Run.andThen, Delivery.ofSelected, check_code]
    rfl

theorem run_load_of_not_affords (ha : ¬ host.Affords 1) (target : Target) (buffer : Bytes)
    (offset : UInt64) : ((load target buffer offset).run host).outcome = .error .cycleOverflow := by
  rw [load, bind_eq, run_bind, loadWords, bind_eq, run_bind, run_request_of_not_affords ha]
  rfl

theorem load_yields (hf : host.forced = none) {target : Target} (hs : host.Steady target.resource)
    (buffer : Bytes) (offset : UInt64) :
    (load target buffer offset).Yields host
      (.ok (.ofSelected (host.holdings.read target) buffer offset))
      [Call.ofTarget target buffer.length offset] where
  run_eq earlier ha := by
    have hearlier : (host.spend earlier).forced = none := hf
    have hsteady (spent : List Call) : (host.spend spent).Steady target.resource := hs
    rw [run_load hearlier ha, ← Host.spend_append, (hsteady _).afterLoad_eq, Host.spend_holdings]
  overflows earlier ha := run_load_of_not_affords ha target buffer offset

/-- The load protocol. What is held is delivered with its full length whatever the offset and the
capacity are, and fills the buffer from its start as far as it reaches. What is not held is refused
with the word for a missing item, or for a wrong format when only the field of a header is absent,
and then the caller's memory is as before. -/
theorem load_protocol (hf : host.forced = none) (hc : host.cycles + 500 ≤ 2 ^ 64 - 1)
    (resource : Resource) (buffer : Bytes) (offset index source field : UInt64) :
    let run := (loadWords resource.number buffer offset index source field).run host
    (∀ item, host.holdings.Stores index source field resource item →
      ∃ left, run.outcome = .ok left ∧ left.result = 0 ∧ left.length = item.length ∧
        left.buffer = (item.drop offset.toNat).take (item.reach offset.toNat buffer.length) ++
          buffer.drop (item.reach offset.toNat buffer.length)) ∧
    ((∀ item, ¬ host.holdings.Stores index source field resource item) →
      ∃ left, run.outcome = .ok left ∧
        (host.holdings.LacksField resource index source field → left.result = 4) ∧
        (¬ host.holdings.LacksField resource index source field → left.result = 2) ∧
        left.length = buffer.length ∧ left.buffer = buffer) := by
  intro run
  have ha : host.Affords 1 := by
    simp only [Host.Affords, Host.cyclesPerCall]
    omega
  have hrun : run.outcome =
      .ok (.ofSelected (host.holdings.select resource index source field) buffer offset) :=
    congrArg Run.outcome (run_loadWords hf ha resource buffer offset index source field)
  constructor
  · intro item hi
    rw [Holdings.select_eq_ok_iff.mpr hi] at hrun
    exact ⟨_, hrun, rfl, rfl, Bytes.overwrite_window buffer item offset.toNat⟩
  · intro habsent
    by_cases hl : host.holdings.LacksField resource index source field
    · rw [Holdings.select_of_lacksField hl] at hrun
      exact ⟨_, hrun, fun _ => rfl, fun hn => absurd hl hn, rfl, rfl⟩
    · rw [Holdings.select_of_absent habsent hl] at hrun
      exact ⟨_, hrun, fun h => absurd h hl, fun _ => rfl, rfl, rfl⟩

/-- A lock of four bytes, read from its third byte on into a buffer of three. The cell is one of the
group, and the later of its two locks holds. -/
theorem load_protocol_lock :
    let host : Host :=
      { holdings :=
        { cells := ⟨[(0x0100000000000001,
          { bytes := [1], fields := [(2, [1, 2]), (2, [5, 6, 7, 8])] })]⟩ } }
    (host.forced = none ∧ host.cycles + 500 ≤ 2 ^ 64 - 1) ∧
      ∃ left, ((loadWords 2081 [9, 9, 9] 2 0 0x0100000000000001 2).run host).outcome =
          .ok left ∧
        left.result = 0 ∧ left.length = 4 ∧ left.buffer = [7, 8, 9] := by
  intro host
  have hstores : host.holdings.Stores 0 0x0100000000000001 2 .cellField [5, 6, 7, 8] :=
    .cellField rfl rfl
  have hload := load_protocol (rfl : host.forced = none) (by decide) .cellField [9, 9, 9] 2 0
    0x0100000000000001 2
  exact ⟨⟨rfl, by decide⟩, hload.1 [5, 6, 7, 8] hstores⟩

end Program

end ScriptHost
