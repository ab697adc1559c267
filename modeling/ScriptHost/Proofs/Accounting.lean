import ScriptHost.Proofs.Stepping

/-! The log and the counter of a host. Every call of a step is noted, and every call that can be
paid is charged, so that both tell the number of the step's calls. -/

namespace ScriptHost

namespace Run

variable {α : Type} {host : Host} {run : Run α}

theorem Ends.calls_eq (h : run.Ends host) :
    run.host.calls = host.calls ++ run.trace.map Call.number := by
  cases h with
  | finished hreplies => exact hreplies.calls_eq
  | waiting hreplies => exact hreplies.calls_eq
  | @stopped earlier last middle left fatal hreplies hlast =>
    have hcalls := middle.answer_calls last
    rw [hlast, hreplies.calls_eq, List.append_assoc] at hcalls
    rw [List.map_append]
    exact hcalls

/-- A run that overflows is stopped by its last call, which alone is not charged. -/
theorem Ends.exists_overflow (h : run.Ends host) (ho : run.outcome = .error .cycleOverflow) :
    ∃ earlier last middle, run.trace = earlier ++ [last] ∧ host.Replies earlier middle ∧
      middle.answer last = (.error .cycleOverflow, run.host) := by
  cases h with
  | finished hreplies => cases ho
  | waiting hreplies => cases ho
  | stopped hreplies hlast =>
    cases ho
    exact ⟨_, _, _, rfl, hreplies, hlast⟩

/-- The counter is still full behind a run that overflows. -/
theorem Ends.full_of_overflow (h : run.Ends host) (ho : run.outcome = .error .cycleOverflow) :
    ¬ run.host.cycles ≤ Host.payable := by
  obtain ⟨earlier, last, middle, -, -, hlast⟩ := h.exists_overflow ho
  obtain ⟨hfull, hleft⟩ := Host.answer_of_cycleOverflow hlast
  rw [hleft]
  exact hfull

/-- All calls of a run that does not overflow are charged, and the counter still holds a word. -/
theorem Ends.cycles_eq (h : run.Ends host) (hc : host.cycles ≤ 2 ^ 64 - 1)
    (ho : run.outcome ≠ .error .cycleOverflow) :
    run.host.cycles = host.cycles + 500 * run.trace.length ∧ run.host.cycles ≤ 2 ^ 64 - 1 := by
  cases h with
  | finished hreplies => exact ⟨hreplies.cycles_eq, hreplies.cycles_le hc⟩
  | waiting hreplies => exact ⟨hreplies.cycles_eq, hreplies.cycles_le hc⟩
  | @stopped earlier last middle left fatal hreplies hlast =>
    have hfatal : fatal ≠ .cycleOverflow := fun h => ho (congrArg Except.error h)
    obtain ⟨hroom, hleft⟩ := Host.answer_of_fatal hlast hfatal
    have hmiddle := hreplies.cycles_eq
    rw [Host.payable_iff] at hroom
    simp only [Host.cyclesPerCall] at hleft hmiddle
    simp only [List.length_append, List.length_singleton]
    constructor
    · calc left.cycles = middle.cycles + 500 := hleft
        _ = host.cycles + 500 * earlier.length + 500 := by rw [hmiddle]
        _ = host.cycles + 500 * (earlier.length + 1) := Nat.add_assoc _ _ _
    · omega

/-- What overflows has been charged for all calls but the last, and the charge for that one does not
fit. -/
theorem Ends.cycles_of_overflow (h : run.Ends host) (ho : run.outcome = .error .cycleOverflow) :
    run.host.cycles = host.cycles + 500 * (run.trace.length - 1) ∧
      2 ^ 64 - 1 < host.cycles + 500 * run.trace.length := by
  obtain ⟨earlier, last, middle, htrace, hreplies, hlast⟩ := h.exists_overflow ho
  obtain ⟨hover, hleft⟩ := Host.answer_of_cycleOverflow hlast
  have hcycles : run.host.cycles = middle.cycles := by
    rw [hleft]
    rfl
  have hmiddle := hreplies.cycles_eq
  rw [Host.payable_iff] at hover
  simp only [Host.cyclesPerCall] at hmiddle
  rw [htrace, List.length_append, List.length_singleton, Nat.add_sub_cancel]
  constructor
  · omega
  · omega

theorem Ends.overflow_iff (h : run.Ends host) (hc : host.cycles ≤ 2 ^ 64 - 1) :
    run.outcome = .error .cycleOverflow ↔ 2 ^ 64 - 1 < host.cycles + 500 * run.trace.length := by
  constructor
  · intro ho
    exact (h.cycles_of_overflow ho).2
  · intro hfull
    by_contra ho
    obtain ⟨hcycles, hle⟩ := h.cycles_eq hc ho
    omega

end Run

namespace Session

theorem Setup.apply_cycles (host : Host) {change : Setup}
    (hcycles : ∀ value, change ≠ .cycles value) : (change.apply host).cycles = host.cycles := by
  cases change with
  | cycles value => exact absurd rfl (hcycles value)
  | _ => rfl

/-- A change from outside that sets neither the counter nor the log leaves both alone. -/
theorem Setup.apply_ledger (host : Host) {change : Setup}
    (hcycles : ∀ value, change ≠ .cycles value) (hclear : change ≠ .clearCalls) :
    (change.apply host).calls = host.calls ∧ (change.apply host).cycles = host.cycles := by
  refine ⟨?_, change.apply_cycles host hcycles⟩
  cases change with
  | clearCalls => exact absurd rfl hclear
  | _ => rfl

/-- The log grows by the numbers of a step's calls, and the counter by the charge for each of them.
The step is stopped for lack of room exactly when the charges would not fit the counter, and then by
its last call, which is not charged. -/
theorem step_accounts (session : Session) (hc : session.host.cycles ≤ 2 ^ 64 - 1) {step : Step}
    (hcycles : ∀ value, step ≠ .setup (.cycles value)) (hclear : step ≠ .setup .clearCalls) :
    let record := (session.step step).1
    let left := (session.step step).2.host
    let count := record.trace.length
    left.calls = session.host.calls ++ record.trace.map Call.number ∧
    (record.answer = .fatal .cycleOverflow ↔ 2 ^ 64 - 1 < session.host.cycles + 500 * count) ∧
    (record.answer = .fatal .cycleOverflow →
      left.cycles = session.host.cycles + 500 * (count - 1) ∧
      ∃ earlier last middle, record.trace = earlier ++ [last] ∧
        session.host.Replies earlier middle ∧
        middle.answer last = (.error .cycleOverflow, left)) ∧
    (record.answer ≠ .fatal .cycleOverflow → left.cycles = session.host.cycles + 500 * count) := by
  intro record left count
  by_cases hs : ∃ change, step = .setup change
  · obtain ⟨change, rfl⟩ := hs
    have hvalue (value : UInt64) : change ≠ .cycles value :=
      fun h => hcycles value (congrArg Step.setup h)
    have hlog : change ≠ .clearCalls := fun h => hclear (congrArg Step.setup h)
    have hledger := Setup.apply_ledger session.host hvalue hlog
    have hback : record.answer ≠ .fatal .cycleOverflow := Answer.noConfusion
    have hcount : count = 0 := rfl
    have hroom : ¬ 2 ^ 64 - 1 < session.host.cycles + 500 * count := by omega
    refine ⟨?_, ?_, fun h => absurd h hback, fun _ => hledger.2⟩
    · exact hledger.1.trans (List.append_nil _).symm
    · exact iff_of_false hback hroom
  · have hsetup (change : Setup) : step ≠ .setup change := fun h => hs ⟨change, h⟩
    have hhost := session.step_host hsetup
    obtain ⟨htrace, hfatal⟩ := session.step_follows step
    have hends := (session.programOf step).run_ends session.host
    simp only [left, count, record, htrace, hhost, ne_eq, hfatal]
    refine ⟨hends.calls_eq, hends.overflow_iff hc, ?_, ?_⟩
    · intro ho
      exact ⟨(hends.cycles_of_overflow ho).1, hends.exists_overflow ho⟩
    · intro ho
      exact (hends.cycles_eq hc ho).1

/-- A load whose result word means nothing can still be paid, but the exit call of the abort that
follows it cannot. -/
theorem step_accounts_abort :
    let session : Session := { host := { cycles := 2 ^ 64 - 1 - 700, forced := some 5 } }
    let step : Step := .perform (.loadInto (.cell 0 .input) [7] 0)
    (session.host.cycles ≤ 2 ^ 64 - 1 ∧ (∀ value, step ≠ .setup (.cycles value)) ∧
      step ≠ .setup .clearCalls) ∧
      (session.step step).1.answer = .fatal .cycleOverflow ∧
      (session.step step).2.host.calls = [2071, 93] ∧
      (session.step step).2.host.cycles = 2 ^ 64 - 1 - 200 := by
  intro session step
  have htrace : (session.step step).1.trace =
      [.ofTarget (.cell 0 .input) 1 0, Program.exitCall Program.abortCode] := by
    decide +kernel
  have hroom : session.host.cycles ≤ 2 ^ 64 - 1 := by decide
  have hcycles (value : UInt64) : step ≠ .setup (.cycles value) := Step.noConfusion
  have hclear : step ≠ .setup .clearCalls := Step.noConfusion
  obtain ⟨hcalls, hiff, hover, _⟩ := session.step_accounts hroom hcycles hclear
  simp only [htrace] at hcalls hiff hover
  have hfatal := hiff.mpr (by decide)
  exact ⟨⟨hroom, hcycles, hclear⟩, hfatal, hcalls, (hover hfatal).1⟩

end Session

end ScriptHost
