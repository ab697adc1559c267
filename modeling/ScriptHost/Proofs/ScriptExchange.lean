import ScriptHost.Proofs.WholeLoad

/-! A script that is exchanged while it is being loaded. The second of the two loads sees another
script than the first, and only a change of length is noticed. -/

namespace ScriptHost

namespace Host

/-- The host once its next script has taken the place of the script. -/
def exchanged (host : Host) (script : Bytes) : Host :=
  { host with holdings.script := script, nextScript := none }

theorem afterLoad_of_some {host : Host} {script : Bytes} (h : host.nextScript = some script) :
    host.afterLoad .script = host.exchanged script := by
  simp only [afterLoad, h, exchanged]

end Host

namespace Program

variable {host : Host} {old new : Bytes}

theorem run_loadWhole_script (hf : host.forced = none) (ha : host.Affords 1)
    (ho : host.holdings.script = old) (hn : host.nextScript = some new) :
    let left := (host.spend [probeCall .script]).exchanged new
    (loadWhole .script).run host =
      if old.length ≤ probeSize then ⟨.ok (.ok old), [probeCall .script], left⟩
      else ((complete .script (old.take probeSize) old.length).run left).precededBy
        (probeCall .script) := by
  intro left
  have hread : host.holdings.read .script = .ok old := congrArg Except.ok ho
  have hleft : (host.spend [probeCall .script]).afterLoad Target.script.resource = left :=
    Host.afterLoad_of_some hn
  rw [loadWhole_eq, run_bind, run_load hf ha, ofTarget_zeros, ← probeCall, hleft, hread]
  simp only [Run.andThen, Loaded.ofSelected, Delivery.ofSelected, Except.map]
  split
  · next hsmall =>
    rw [UInt64.toNat_zero, Bytes.take_overwrite_window hsmall]
    rfl
  · next hlong =>
    have hfull : 0 + probeSize ≤ old.length := by omega
    rw [UInt64.toNat_zero, Bytes.overwrite_zeros_window hfull]
    rfl

/-- The calls of a load during which the script is exchanged. -/
def exchangeCalls (old new : Bytes) : List Call :=
  if old.length ≤ probeSize then [probeCall .script]
  else if new.length = old.length then [probeCall .script, restCall .script old.length]
  else [probeCall .script, restCall .script old.length, exitCall abortCode]

/-- How a load ends during which the script is exchanged. Scripts of one length that is greater than
that of a probe are mixed. -/
def exchangeOutcome (old new : Bytes) : Except Fatal (Except HostError Bytes) :=
  if old.length ≤ probeSize then .ok (.ok old)
  else if new.length = old.length then .ok (.ok (old.take probeSize ++ new.drop probeSize))
  else .error (.exited abortCode)

theorem length_exchangeCalls_le (old new : Bytes) : (exchangeCalls old new).length ≤ 3 := by
  rw [exchangeCalls]
  split
  · simp
  · split <;> simp

theorem run_exchange (hf : host.forced = none) (ha : host.Affords 3)
    (ho : host.holdings.script = old) (hn : host.nextScript = some new) :
    (loadWhole .script).run host =
      ⟨exchangeOutcome old new, exchangeCalls old new,
        (host.exchanged new).spend (exchangeCalls old new)⟩ := by
  let left := (host.spend [probeCall .script]).exchanged new
  have hfleft : left.forced = none := hf
  have hsteady : left.Steady Target.script.resource := fun _ => rfl
  have hread : left.holdings.read .script = .ok new := rfl
  have haleft : left.Affords 2 := ((host.affords_append_iff [probeCall .script] 2).mp ha).2
  have hspend (calls : List Call) :
      left.spend calls = (host.exchanged new).spend (probeCall .script :: calls) :=
    ((host.exchanged new).spend_append [probeCall .script] calls).symm
  have haprobe : host.Affords 1 := ha.mono (by omega)
  rw [run_loadWhole_script hf haprobe ho hn, exchangeOutcome, exchangeCalls]
  by_cases hsmall : old.length ≤ probeSize
  · simp only [if_pos hsmall]
    rfl
  · simp only [if_neg hsmall]
    by_cases hsame : new.length = old.length
    · -- The second load sees a script of the reported length and so cannot tell it from the old.
      have hlong : probeSize ≤ new.length := by omega
      have hrest := complete_yields hfleft hsteady hread hlong (old.take probeSize)
      have harest : left.Affords 1 := haleft.mono (by omega)
      rw [hsame] at hrest
      rw [hrest.run_host harest, hspend]
      simp only [if_pos hsame]
      rfl
    · have hrest := complete_yields_abort hfleft hsteady hread hsame (old.take probeSize)
      rw [hrest.run_host haleft, hspend]
      simp only [if_neg hsame]
      rfl

/-- What the exchange leaves is a host like any other, whose script is the new one. -/
theorem load_exchanged_yields (hf : host.forced = none) (new : Bytes) (calls : List Call) :
    (loadWhole .script).Yields ((host.exchanged new).spend calls) (.ok (.ok new))
      (wholeCalls .script (.ok new)) := by
  let left := (host.exchanged new).spend calls
  have hforced : left.forced = none := hf
  have hsteady : left.Steady Target.script.resource := fun _ => rfl
  have hread : left.holdings.read .script = .ok new := rfl
  have hload := loadWhole_yields hforced hsteady
  rwa [hread] at hload

/-- A script that is exchanged while it is loaded: it comes back as it was when the probe holds all
of it, as a mixture when both scripts are longer and of one length, and otherwise the load aborts.
The new script is in force afterwards, and the next load gives it back exactly when the counter has
room for that load. -/
theorem script_exchange (hf : host.forced = none) (ho : host.holdings.script = old)
    (hn : host.nextScript = some new) (hc : host.cycles ≤ 2 ^ 64 - 1 - 1500) :
    let run := (loadWhole .script).run host
    let next := (loadWhole .script).run run.host
    let probe := Call.ofTarget .script 1024 0
    let rest := Call.ofTarget .script (old.length - 1024) 1024
    (old.length ≤ 1024 → run.outcome = .ok (.ok old) ∧ run.trace = [probe]) ∧
    (1024 < old.length → new.length = old.length →
      run.outcome = .ok (.ok (old.take 1024 ++ new.drop 1024)) ∧ run.trace = [probe, rest]) ∧
    (1024 < old.length → new.length ≠ old.length →
      run.outcome = .error (.exited (-2)) ∧ run.trace = [probe, rest, exitCall (-2)]) ∧
    run.host.holdings.script = new ∧ run.host.nextScript = none ∧
    next.outcome =
      if run.host.cycles + 500 * (if new.length ≤ 1024 then 1 else 2) ≤ 2 ^ 64 - 1
      then .ok (.ok new) else .error .cycleOverflow := by
  intro run next probe rest
  have ha : host.Affords 3 := by
    simp only [Host.Affords, Host.cyclesPerCall]
    omega
  have hrun : run = ⟨exchangeOutcome old new, exchangeCalls old new,
      (host.exchanged new).spend (exchangeCalls old new)⟩ := run_exchange hf ha ho hn
  have hcycles : run.host.cycles ≤ 2 ^ 64 - 1 := by
    have hcalls := length_exchangeCalls_le old new
    rw [hrun]
    simp only [Host.spend, Host.exchanged, Host.cyclesPerCall]
    omega
  have hnext : (loadWhole .script).Yields run.host (.ok (.ok new))
      (wholeCalls .script (.ok new)) := by
    rw [hrun]
    exact load_exchanged_yields hf new _
  refine ⟨?_, ?_, ?_, ?_, ?_, ?_⟩
  · intro hsmall
    rw [hrun]
    exact ⟨if_pos hsmall, if_pos hsmall⟩
  · intro hlong hsame
    have hlong : ¬ old.length ≤ probeSize := Nat.not_le_of_lt hlong
    rw [hrun]
    exact ⟨(if_neg hlong).trans (if_pos hsame), (if_neg hlong).trans (if_pos hsame)⟩
  · intro hlong hother
    have hlong : ¬ old.length ≤ probeSize := Nat.not_le_of_lt hlong
    rw [hrun]
    exact ⟨(if_neg hlong).trans (if_neg hother), (if_neg hlong).trans (if_neg hother)⟩
  · rw [hrun]
    rfl
  · rw [hrun]
    rfl
  · have hlength : (wholeCalls .script (.ok new)).length = if new.length ≤ 1024 then 1 else 2 :=
      apply_ite List.length (new.length ≤ 1024) _ _
    rw [hnext.outcome_run, hlength]
    refine if_congr ?_ rfl rfl
    simp only [Host.Affords, Host.cyclesPerCall]
    omega

/-- Two scripts of fifteen hundred bytes are mixed at the end of the probe. -/
theorem script_exchange_mixes :
    let host : Host :=
      { holdings := { script := List.replicate 1500 1 }, nextScript := some (List.replicate 1500 2) }
    (host.forced = none ∧ host.cycles ≤ 2 ^ 64 - 1 - 1500) ∧
      ((loadWhole .script).run host).outcome =
        .ok (.ok (List.replicate 1024 1 ++ List.replicate 476 2)) := by
  intro host
  have hexchange := script_exchange (rfl : host.forced = none) rfl rfl (by decide)
  have hlengths : (List.replicate 1500 1 : Bytes).length = 1500 ∧
      (List.replicate 1500 2 : Bytes).length = 1500 :=
    ⟨List.length_replicate, List.length_replicate⟩
  have hmixed := (hexchange.2.1 (by rw [hlengths.1]; decide) (by rw [hlengths.1, hlengths.2])).1
  rw [List.take_replicate, List.drop_replicate] at hmixed
  exact ⟨⟨rfl, by decide⟩, hmixed⟩

/-- With room for the calls of the exchange alone, the load after it overflows instead of giving
back the new script. -/
theorem load_after_exchange_overflows :
    let host : Host :=
      { holdings := { script := List.replicate 1025 0 }
        nextScript := some []
        cycles := 2 ^ 64 - 1 - 1500 }
    let next := (loadWhole .script).run ((loadWhole .script).run host).host
    (host.forced = none ∧ host.nextScript = some [] ∧ host.cycles ≤ 2 ^ 64 - 1 - 1500) ∧
      next.outcome = .error .cycleOverflow ∧ next.outcome ≠ .ok (.ok []) := by
  intro host next
  let left := ((loadWhole .script).run host).host
  have hrun : (loadWhole .script).run host = _ :=
    run_exchange (rfl : host.forced = none) (by decide) rfl rfl
  have hlong : ¬ host.holdings.script.length ≤ probeSize := by
    rw [List.length_replicate]
    decide
  have hother : ¬ ([] : Bytes).length = host.holdings.script.length := by
    rw [List.length_replicate]
    decide
  have hleft : left = (host.exchanged []).spend
      [probeCall .script, restCall .script host.holdings.script.length, exitCall abortCode] := by
    simp only [left, hrun, exchangeCalls, if_neg hlong, if_neg hother]
  have hfull : ¬ left.Affords 1 := by
    rw [hleft]
    decide
  have hload : (loadWhole .script).Yields left (.ok (.ok [])) [probeCall .script] := by
    rw [hleft]
    exact load_exchanged_yields rfl [] _
  have hnext : next.outcome = .error .cycleOverflow := hload.outcome_run.trans (if_neg hfull)
  exact ⟨⟨rfl, rfl, by decide⟩, hnext, by rw [hnext]; exact nofun⟩

end Program

end ScriptHost
