import ScriptHost.Proofs.Loaders

/-! Loads of unknown length. A probe and, where it does not suffice, one more load give the whole
item, unless the script is exchanged between the two. -/

namespace ScriptHost

namespace Bytes

theorem take_overwrite {buffer data : Bytes} (h : data.length ≤ buffer.length) :
    (overwrite buffer data).take data.length = data := by
  rw [overwrite, List.take_of_length_le h, List.take_left]

theorem take_overwrite_window {item : Bytes} {capacity : Nat} (h : item.length ≤ capacity) :
    (overwrite (zeros capacity) (window item 0 (zeros capacity).length)).take item.length =
      item := by
  have hwindow : window item 0 (zeros capacity).length = item := by
    rw [window, List.drop_zero, length_zeros, List.take_of_length_le h]
  rw [hwindow]
  exact take_overwrite (by rwa [length_zeros])

/-- A buffer that the item fills keeps none of its own bytes. -/
theorem overwrite_zeros_window {item : Bytes} {offset capacity : Nat}
    (h : offset + capacity ≤ item.length) :
    overwrite (zeros capacity) (window item offset (zeros capacity).length) =
      (item.drop offset).take capacity := by
  have hreach : reach item offset capacity = capacity := by
    rw [reach_eq_min]
    omega
  have hnone : (zeros capacity).drop capacity = [] := by
    apply List.drop_of_length_le
    exact Nat.le_of_eq (length_zeros capacity)
  rw [overwrite_window, length_zeros, hreach, hnone, List.append_nil]

end Bytes

namespace Program

variable {host : Host}

theorem ofTarget_zeros (target : Target) (capacity : Nat) (offset : UInt64) :
    Call.ofTarget target (Bytes.zeros capacity).length offset =
      Call.ofTarget target capacity offset := by
  rw [Bytes.length_zeros]

/-- The second load of a load of unknown length, which fetches what the probe left out. -/
def complete (target : Target) (probe : Bytes) (length : Nat) :
    Program (Except HostError Bytes) := do
  let rest ← load target (Bytes.zeros (length - probeSize)) (UInt64.ofNat probeSize)
  match rest.answer with
  | .error error => return .error error
  | .ok again => if again = length then return .ok (probe ++ rest.buffer) else abort

theorem loadWhole_eq (target : Target) :
    loadWhole target = (load target (Bytes.zeros probeSize) 0).bind fun probe =>
      match probe.answer with
      | .error error => done (.error error)
      | .ok length =>
        if length ≤ probeSize then done (.ok (probe.buffer.take length))
        else complete target probe.buffer length := rfl

/-- The call of the probe. -/
def probeCall (target : Target) : Call :=
  .ofTarget target probeSize 0

/-- The call that fetches the rest of an item. -/
def restCall (target : Target) (length : Nat) : Call :=
  .ofTarget target (length - probeSize) (UInt64.ofNat probeSize)

theorem load_rest_yields (hf : host.forced = none) {target : Target}
    (hs : host.Steady target.resource) (length : Nat) :
    (load target (Bytes.zeros (length - probeSize)) (UInt64.ofNat probeSize)).Yields host
      (.ok (.ofSelected (host.holdings.read target) (Bytes.zeros (length - probeSize))
        (UInt64.ofNat probeSize)))
      [restCall target length] := by
  have h := load_yields hf hs (Bytes.zeros (length - probeSize)) (UInt64.ofNat probeSize)
  rwa [ofTarget_zeros] at h

theorem complete_yields (hf : host.forced = none) {target : Target}
    (hs : host.Steady target.resource) {item : Bytes} (hread : host.holdings.read target = .ok item)
    (hlong : probeSize ≤ item.length) (probe : Bytes) :
    (complete target probe item.length).Yields host (.ok (.ok (probe ++ item.drop probeSize)))
      [restCall target item.length] := by
  have hrest := load_rest_yields hf hs item.length
  rw [hread] at hrest
  apply hrest.bind
  have hfills : probeSize + (item.length - probeSize) ≤ item.length := by omega
  have hbuffer : Bytes.overwrite (Bytes.zeros (item.length - probeSize))
      (Bytes.window item probeSize (Bytes.zeros (item.length - probeSize)).length) =
        item.drop probeSize := by
    rw [Bytes.overwrite_zeros_window hfills, ← List.length_drop, List.take_length]
  have hoffset : (UInt64.ofNat probeSize).toNat = probeSize := rfl
  simp only [Loaded.ofSelected, Delivery.ofSelected, Except.map, if_pos, hoffset, hbuffer]
  exact Yields.done _ host

theorem complete_yields_abort (hf : host.forced = none) {target : Target}
    (hs : host.Steady target.resource) {item : Bytes} (hread : host.holdings.read target = .ok item)
    {length : Nat} (hother : item.length ≠ length) (probe : Bytes) :
    (complete target probe length).Yields host (.error (.exited abortCode))
      [restCall target length, exitCall abortCode] := by
  have hrest := load_rest_yields hf hs length
  rw [hread] at hrest
  apply hrest.bind
  simp only [Loaded.ofSelected, Except.map, if_neg hother]
  exact abort_yields hf

/-- The calls of a load of unknown length. -/
def wholeCalls (target : Target) : Except HostError Bytes → List Call
  | .error _ => [probeCall target]
  | .ok item =>
    if item.length ≤ probeSize then [probeCall target]
    else [probeCall target, restCall target item.length]

theorem length_wholeCalls_le (target : Target) (selected : Except HostError Bytes) :
    (wholeCalls target selected).length ≤ 2 := by
  cases selected with
  | error error => exact Nat.le_succ 1
  | ok item =>
    rw [wholeCalls]
    split
    · exact Nat.le_succ 1
    · exact Nat.le_refl 2

/-- A load of unknown length yields what is held, or the refusal. -/
theorem loadWhole_yields (hf : host.forced = none) {target : Target}
    (hs : host.Steady target.resource) :
    (loadWhole target).Yields host (.ok (host.holdings.read target))
      (wholeCalls target (host.holdings.read target)) := by
  have hprobe := load_yields hf hs (Bytes.zeros probeSize) 0
  rw [ofTarget_zeros] at hprobe
  rw [loadWhole_eq]
  cases hread : host.holdings.read target with
  | error error =>
    rw [hread] at hprobe
    exact hprobe.bind (Yields.done _ host)
  | ok item =>
    rw [hread] at hprobe
    by_cases hsmall : item.length ≤ probeSize
    · rw [wholeCalls, if_pos hsmall]
      apply hprobe.bind
      simp only [Loaded.ofSelected, Delivery.ofSelected, Except.map, if_pos hsmall]
      rw [UInt64.toNat_zero, Bytes.take_overwrite_window hsmall]
      exact Yields.done _ host
    · rw [wholeCalls, if_neg hsmall]
      apply hprobe.bind
      have hlong : 0 + probeSize ≤ item.length := by omega
      have hrest := complete_yields hf hs hread (Nat.le_of_not_le hsmall) (item.take probeSize)
      rw [List.take_append_drop] at hrest
      simp only [Loaded.ofSelected, Delivery.ofSelected, Except.map, if_neg hsmall]
      rw [UInt64.toNat_zero, Bytes.overwrite_zeros_window hlong, List.drop_zero]
      exact hrest

end Program

theorem Query.load_of_bytes {query : Query} (hq : query.form = .bytes) (index : UInt64)
    (source : Source) :
    query.load index source = (Program.loadWhole (query.target index source)).bind fun item =>
      .done (item.map .bytes) := by
  simp only [Query.load, hq]
  rfl

namespace Session.Loader

variable {host : Host} {loader : Loader}

theorem program_of_bytes (hform : loader.entry.form = .bytes) :
    loader.action.program = (Program.loadWhole loader.target).bind fun item =>
      .done (.ofExcept (.datum ∘ .bytes) item) := by
  cases loader with
  | txHash | scriptHash => cases hform
  | script | transaction => rfl
  | item query index source =>
    have hq : query.form = .bytes := query.form_eq.trans hform
    rw [← Program.bind_map_ofExcept, target, ← Query.load_of_bytes hq]
    rfl

theorem action_yields (hf : host.forced = none) (hn : host.nextScript = none)
    (hform : loader.entry.form = .bytes) :
    loader.action.program.Yields host
      (.ok (.ofExcept (.datum ∘ .bytes) (host.holdings.read loader.target)))
      (Program.wholeCalls loader.target (host.holdings.read loader.target)) := by
  have hsteady : host.Steady loader.target.resource := fun _ => hn
  rw [program_of_bytes hform]
  exact (Program.loadWhole_yields hf hsteady).map _

/-- Loads of unknown length are exact: what is held comes back whole, with one call when it fits the
probe and with two otherwise, and what is not held is missing after one call. -/
theorem loads_exactly (hf : host.forced = none) (hn : host.nextScript = none)
    (hc : host.cycles ≤ 2 ^ 64 - 1 - 1000) (hform : loader.entry.form = .bytes) :
    let run := loader.action.program.run host
    (∀ item, loader.Finds host.holdings item →
      run.outcome = .ok (.value (.datum (.bytes item))) ∧
        (item.length ≤ 1024 → run.trace = [loader.call 1024 0]) ∧
        (1024 < item.length →
          run.trace = [loader.call 1024 0, loader.call (item.length - 1024) 1024])) ∧
    ((∀ item, ¬ loader.Finds host.holdings item) →
      run.outcome = .ok (.refused .itemMissing {}) ∧ run.trace = [loader.call 1024 0]) ∧
    run.host =
      { host with
        calls := host.calls ++ run.trace.map Call.number
        cycles := host.cycles + 500 * run.trace.length } := by
  intro run
  have hyields := action_yields hf hn hform
  have htwo := Program.length_wholeCalls_le loader.target (host.holdings.read loader.target)
  have hroom : host.Affords 2 := by
    simp only [Host.Affords, Host.cyclesPerCall]
    omega
  have hrun : run = _ := hyields.run_host (hroom.mono htwo)
  have hcall := loader.fits_target.ofTarget_eq
  refine ⟨?_, ?_, ?_⟩
  · intro item hi
    have hread := loader.fits_target.read_of_finds hi
    rw [hrun, hread, ← hcall, ← hcall]
    refine ⟨rfl, ?_, ?_⟩
    · intro hsmall
      exact if_pos hsmall
    · intro hlong
      exact if_neg (Nat.not_le_of_lt hlong)
  · intro habsent
    have hread := loader.fits_target.read_of_absent habsent (not_lacksField hform)
    rw [hrun, hread, ← hcall]
    exact ⟨rfl, rfl⟩
  · rw [hrun]
    rfl

/-- A script of fifteen hundred bytes comes in two loads, and the lock of a cell in one. -/
theorem loads_exactly_script :
    let cell : Item := { bytes := [], fields := [(2, [6, 6]), (4, [8])] }
    let host : Host :=
      { holdings := { script := List.replicate 1500 7, cells := ⟨[(2, cell)]⟩ } }
    let lock : Loader := .item .cellLock 0 .output
    (host.forced = none ∧ host.nextScript = none ∧ host.cycles ≤ 2 ^ 64 - 1 - 1000 ∧
      script.entry.form = .bytes ∧ lock.entry.form = .bytes) ∧
      (script.action.program.run host).outcome =
        .ok (.value (.datum (.bytes (List.replicate 1500 7)))) ∧
      (script.action.program.run host).trace =
        [.load 2052 1024 0 0 0 0, .load 2052 476 1024 0 0 0] ∧
      (lock.action.program.run host).outcome = .ok (.value (.datum (.bytes [6, 6]))) ∧
      (lock.action.program.run host).trace = [.load 2081 1024 0 0 2 2] := by
  intro cell host lock
  have hf : host.forced = none := rfl
  have hn : host.nextScript = none := rfl
  have hc : host.cycles ≤ 2 ^ 64 - 1 - 1000 := by decide
  have hlength : (List.replicate 1500 7 : Bytes).length = 1500 := List.length_replicate
  obtain ⟨hscript, -, -⟩ := loads_exactly hf hn hc (rfl : script.entry.form = .bytes)
  obtain ⟨houtcome, -, htrace⟩ := hscript (List.replicate 1500 7) .script
  rw [hlength] at htrace
  obtain ⟨hlock, -, -⟩ := loads_exactly hf hn hc (rfl : lock.entry.form = .bytes)
  have hcell : host.holdings.cells.get? 2 0 = some cell := rfl
  obtain ⟨houtcome', htrace', -⟩ := hlock [6, 6] (.cellField hcell rfl)
  exact ⟨⟨hf, hn, hc, rfl, rfl⟩, houtcome, htrace (by decide), houtcome', htrace' (by decide)⟩

end Session.Loader

end ScriptHost
