import ScriptHost.Proofs.Interference

/-! The counter as a meter. A charge that does not fit leaves the counter as it is, so that no later
charge fits either. Two counts that a host has given therefore tell how many calls were made between
them. -/

namespace ScriptHost

namespace Session

variable {session : Session} {step : Step} {steps : List Step} {i j : Nat}

/-- What the steps of some records make of the counter. They do not lower it, and if it has room for
a charge behind them, all their calls have been charged. -/
structure Pays (before : Host) (records : List Record) (after : Host) : Prop where
  le : before.cycles ≤ after.cycles
  paid : after.cycles ≤ Host.payable →
    (∀ record ∈ records, record.answer ≠ .fatal .cycleOverflow) ∧
      after.cycles = before.cycles + 500 * (records.flatMap Record.trace).length

namespace Pays

variable {before middle after : Host} {records more : List Record}

theorem nil (host : Host) : Pays host [] host where
  le := Nat.le_refl _
  paid _ := ⟨List.forall_mem_nil _, rfl⟩

theorem trans (h : Pays before records middle) (hm : Pays middle more after) :
    Pays before (records ++ more) after := by
  refine ⟨Nat.le_trans h.le hm.le, ?_⟩
  intro hroom
  obtain ⟨hback, hcycles⟩ := h.paid (Nat.le_trans hm.le hroom)
  obtain ⟨hback', hcycles'⟩ := hm.paid hroom
  refine ⟨List.forall_mem_append.mpr ⟨hback, hback'⟩, ?_⟩
  rw [hcycles', hcycles, List.flatMap_append, List.length_append]
  omega

end Pays

theorem step_pays (session : Session) (hset : ∀ value, step ≠ .setup (.cycles value)) :
    Pays session.host [(session.step step).1] (session.step step).2.host := by
  rcases session.step_cases step with ⟨change, rfl⟩ | ⟨-, hhost⟩
  · have hcycles := Setup.apply_cycles session.host fun value h =>
      hset value (congrArg Step.setup h)
    refine ⟨Nat.le_of_eq hcycles.symm, fun _ => ⟨?_, hcycles⟩⟩
    exact List.forall_mem_singleton.mpr Answer.noConfusion
  · obtain ⟨htrace, hfatal⟩ := session.step_follows step
    have hends := (session.programOf step).run_ends session.host
    obtain ⟨charged, hcycles, -, -, hall⟩ := hends.exists_charged
    rw [← hhost] at hcycles
    refine ⟨by omega, ?_⟩
    intro hroom
    have hback : ((session.programOf step).run session.host).outcome ≠ .error .cycleOverflow := by
      intro hover
      rw [hhost] at hroom
      exact hends.full_of_overflow hover hroom
    constructor
    · exact List.forall_mem_singleton.mpr fun h => hback ((hfatal _).mp h)
    · rw [hcycles, hall hback, List.flatMap_singleton, htrace]

theorem run_pays (session : Session) (hset : ∀ value, .setup (.cycles value) ∉ steps) :
    Pays session.host (session.run steps).1 (session.run steps).2.host := by
  induction steps generalizing session with
  | nil => exact .nil session.host
  | cons step rest ih =>
    obtain ⟨hstep, hrest⟩ := forall_notMem_cons.mp hset
    exact (session.step_pays hstep).trans (ih _ hrest)

/-- The record at a place is that of the step there, taken where the earlier steps have led. -/
theorem getElem?_run (session : Session) (steps : List Step) (place : Nat) :
    (session.run steps).1[place]? =
      steps[place]?.map fun step => ((session.run (steps.take place)).2.step step).1 := by
  induction steps generalizing session place with
  | nil => rfl
  | cons step rest ih =>
    cases place with
    | zero => rfl
    | succ place => exact ih (session.step step).2 place

/-- The steps between two places start where the earlier steps have led, and give the records
between these places. -/
theorem run_slice (session : Session) (steps : List Step) (hij : i ≤ j) :
    (session.run (steps.take i)).2.run ((steps.take j).drop i) =
      (((session.run steps).1.take j).drop i, (session.run (steps.take j)).2) := by
  induction steps generalizing session i j with
  | nil => simp only [List.take_nil, List.drop_nil, run]
  | cons step rest ih =>
    cases j with
    | zero =>
      rw [Nat.le_zero.mp hij]
      rfl
    | succ j =>
      cases i with
      | zero =>
        have hrest := congrArg Prod.fst (ih (session.step step).2 (Nat.zero_le j))
        exact Prod.ext (congrArg ((session.step step).1 :: ·) hrest) rfl
      | succ i => exact ih (session.step step).2 (Nat.le_of_succ_le_succ hij)

theorem drop_take_succ {α : Type} {list : List α} {value : α} (hij : i ≤ j)
    (hvalue : list[j]? = some value) :
    (list.take (j + 1)).drop i = (list.take j).drop i ++ [value] := by
  have hlt : j < list.length := (List.getElem?_eq_some_iff.mp hvalue).1
  have hlength : i ≤ (list.take j).length := by
    rw [List.length_take]
    omega
  rw [List.take_add_one, hvalue, Option.toList_some, List.drop_append_of_le_length hlength]

/-- The step at a place asks for the cycles, and the host itself answers it with a count. -/
structure Reading (session : Session) (steps : List Step) (place : Nat) (count : UInt64) :
    Prop where
  step_eq : steps[place]? = some (.perform .currentCycles)
  unforced : (session.run (steps.take place)).2.host.forced = none
  answer_eq : (session.run steps).1[place]?.map Record.answer = some (.value (.word count))

namespace Reading

variable {place : Nat} {count : UInt64}

theorem record_eq (h : session.Reading steps place count) :
    ((session.run (steps.take place)).2.step (.perform .currentCycles)).1.answer =
      .value (.word count) := by
  have hanswer := h.answer_eq
  rw [getElem?_run, h.step_eq] at hanswer
  exact Option.some.inj hanswer

/-- The host could charge the call, and its count has the charge in it. -/
theorem counts (h : session.Reading steps place count) :
    let before := (session.run (steps.take place)).2.host
    before.cycles ≤ Host.payable ∧ count.toNat = before.cycles + 500 ∧
      (session.run (steps.take (place + 1))).2.host.cycles = count.toNat ∧
      ∃ call, (session.run steps).1[place]? = some ⟨.value (.word count), [call]⟩ := by
  intro before
  have hmetered : Action.currentCycles.Metered := True.intro
  obtain ⟨operands, hmeter⟩ := Action.exists_run_metered hmetered
  have hback : (Action.currentCycles.program.run before).outcome ≠ .error .cycleOverflow := by
    intro hover
    have hfatal := (perform_fatal_iff _ Action.currentCycles .cycleOverflow).mpr hover
    cases hfatal.symm.trans h.record_eq
  obtain ⟨hrun, hroom⟩ := hmeter before h.unforced hback
  have hstep := step_of_run_ok hrun
  have hcount : UInt64.ofNat (before.cycles + 500) = count := by
    have hrecord := h.record_eq
    rw [hstep] at hrecord
    exact Value.word.inj (Answer.ok.inj hrecord).1
  have hvalue : count.toNat = before.cycles + 500 := by
    rw [← hcount, UInt64.toNat_ofNat_of_lt' hroom]
  refine ⟨(Host.le_payable_iff _).mpr hroom, hvalue, ?_,
    .words Call.currentCyclesNumber operands, ?_⟩
  · rw [List.take_add_one, h.step_eq, Option.toList_some, run_snoc, hstep, hvalue]
    rfl
  · rw [getElem?_run, h.step_eq, Option.map_some, hstep, hcount]

end Reading

/-- The counts that a host gives meter the calls. Unless a step between two of them sets the counter,
the later count exceeds the earlier one by the charges for all calls in between and for its own, and
no step in between has overflowed. -/
theorem counts_meter_calls (session : Session) (steps : List Step) {i j : Nat} (hij : i < j)
    {count count' : UInt64} (h : session.Reading steps i count) (h' : session.Reading steps j count')
    (hset : ∀ value, .setup (.cycles value) ∉ (steps.take j).drop (i + 1)) :
    let records := (session.run steps).1
    let calls := ((records.take (j + 1)).drop (i + 1)).flatMap Record.trace
    count'.toNat = count.toNat + 500 * calls.length ∧ count.toNat + 500 ≤ count'.toNat ∧
    (count.toNat = (session.run (steps.take i)).2.host.cycles + 500 ∧
      count'.toNat = (session.run (steps.take j)).2.host.cycles + 500) ∧
    ∀ record ∈ (records.take j).drop (i + 1), record.answer ≠ .fatal .cycleOverflow := by
  intro records calls
  have hbetween : i + 1 ≤ j := hij
  obtain ⟨-, hcount, hleft, -⟩ := h.counts
  obtain ⟨hroom, hcount', -, call, hlast⟩ := h'.counts
  have hpays : Pays (session.run (steps.take (i + 1))).2.host ((records.take j).drop (i + 1))
      (session.run (steps.take j)).2.host := by
    have hrun := (session.run (steps.take (i + 1))).2.run_pays hset
    rwa [session.run_slice steps hbetween] at hrun
  obtain ⟨hback, hcycles⟩ := hpays.paid hroom
  have hcalls : calls.length =
      (((records.take j).drop (i + 1)).flatMap Record.trace).length + 1 := by
    simp only [calls, records]
    rw [drop_take_succ hbetween hlast, List.flatMap_append, List.length_append]
    rfl
  refine ⟨?_, ?_, ⟨hcount, hcount'⟩, hback⟩
  · calc count'.toNat
        = (session.run (steps.take j)).2.host.cycles + 500 := hcount'
      _ = count.toNat + 500 * calls.length := by
          rw [hcycles, hleft, hcalls]
          omega
  · omega

/-- The second count fills the counter to its end. A refusal, a panic, an abort behind a forced
result and a raw call of no meaning lie between the two, and an overflow lies before them. -/
theorem counts_meter_calls_full :
    let session : Session := {}
    let steps : List Step := [.setup (.cycles 18446744073709551615), .perform .vmVersion,
      .setup (.cycles 18446744073709547615), .perform .currentCycles,
      .perform (.ask .cellCapacity 0 .input), .perform (.panic "x"), .setup (.forced 7),
      .perform (.loadInto (.cell 0 .input) [7] 0), .setup .clearCalls,
      .perform (.rawWords 5 {}), .perform .currentCycles]
    let records := (session.run steps).1
    let calls := ((records.take 11).drop 4).flatMap Record.trace
    (session.Reading steps 3 18446744073709548115 ∧
      session.Reading steps 10 18446744073709551615 ∧
      ∀ value, .setup (.cycles value) ∉ (steps.take 10).drop 4) ∧
      calls.length = 7 ∧
      ∀ record ∈ (records.take 10).drop 4, record.answer ≠ .fatal .cycleOverflow := by
  intro session steps records calls
  have h : session.Reading steps 3 18446744073709548115 := ⟨rfl, by decide +kernel, rfl⟩
  have hfull : (session.run steps).1[10]?.map Record.answer =
      some (.value (.word 18446744073709551615)) := by
    simp only [session, steps]
    rfl
  have h' : session.Reading steps 10 18446744073709551615 := ⟨rfl, by decide +kernel, hfull⟩
  have hset (value : UInt64) : .setup (.cycles value) ∉ (steps.take 10).drop 4 := by
    simp [steps]
  obtain ⟨hcount, -, -, hback⟩ := session.counts_meter_calls steps (by decide) h h' hset
  refine ⟨⟨h, h', hset⟩, ?_, hback⟩
  have hcharges : 18446744073709551615 = 18446744073709548115 + 500 * calls.length := hcount
  omega

end Session

end ScriptHost
