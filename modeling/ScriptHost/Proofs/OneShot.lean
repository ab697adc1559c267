import ScriptHost.Proofs.Keeping

/-! Forced results are used once. Of the calls behind the step that forces a result, whatever steps
make them, the first that can be charged is answered by it, and all later ones are served. -/

namespace ScriptHost

/-- A call with the host that it is put to. -/
structure Exchange where
  host : Host
  call : Call

namespace Exchange

def answer (exchange : Exchange) : Except Fatal Reply :=
  (exchange.host.answer exchange.call).1

/-- The host as the call leaves it. -/
def left (exchange : Exchange) : Host :=
  (exchange.host.answer exchange.call).2

/-- The charge for the call does not fit the counter. The number is noted, and a forced result is
left as it is. -/
structure Overflows (exchange : Exchange) (word : UInt64) : Prop where
  full : 2 ^ 64 - 1 < exchange.host.cycles + 500
  forced_eq : exchange.host.forced = some word
  answer_eq : exchange.answer = .error .cycleOverflow
  left_eq : exchange.left =
    { exchange.host with calls := exchange.host.calls ++ [exchange.call.number] }

/-- The call is answered by the forced result, with nothing written, and leaves nothing but its mark
on the host. -/
structure Overridden (exchange : Exchange) (word : UInt64) : Prop where
  room : exchange.host.cycles + 500 ≤ 2 ^ 64 - 1
  forced_eq : exchange.host.forced = some word
  answer_eq : exchange.answer = .ok { result := word, written := [], length := none }
  left_eq : exchange.left =
    { exchange.host with
      calls := exchange.host.calls ++ [exchange.call.number]
      cycles := exchange.host.cycles + 500
      forced := none }

/-- No result is forced before the call or behind it, and a call that can be charged is served. -/
structure Unforced (exchange : Exchange) : Prop where
  before : exchange.host.forced = none
  after : exchange.left.forced = none
  served : exchange.host.cycles + 500 ≤ 2 ^ 64 - 1 →
    (exchange.answer, exchange.left) =
      Host.serve
        { exchange.host with
          calls := exchange.host.calls ++ [exchange.call.number]
          cycles := exchange.host.cycles + 500 }
        exchange.call

variable {exchange : Exchange} {word : UInt64}

theorem overflows (hfull : 2 ^ 64 - 1 < exchange.host.cycles + 500)
    (hf : exchange.host.forced = some word) : exchange.Overflows word := by
  have hover : ¬ exchange.host.cycles ≤ Host.payable := by
    rw [Host.payable_iff]
    omega
  have hanswer := Host.answer_of_overflow hover exchange.call
  exact ⟨hfull, hf, congrArg Prod.fst hanswer, congrArg Prod.snd hanswer⟩

theorem Overflows.left_forced (h : exchange.Overflows word) : exchange.left.forced = some word := by
  rw [h.left_eq]
  exact h.forced_eq

theorem overridden (hroom : exchange.host.cycles + 500 ≤ 2 ^ 64 - 1)
    (hf : exchange.host.forced = some word) : exchange.Overridden word := by
  have hanswer := Host.answer_of_forced ((Host.payable_iff _).mpr hroom) hf exchange.call
  exact ⟨hroom, hf, congrArg Prod.fst hanswer, congrArg Prod.snd hanswer⟩

theorem unforced (hf : exchange.host.forced = none) : exchange.Unforced where
  before := hf
  after := by
    by_cases hroom : exchange.host.cycles ≤ Host.payable
    · obtain ⟨script, nextScript, messages, execs, hleft⟩ :=
        Host.answer_frame hroom exchange.call
      rw [left, hleft]
    · rw [left, Host.answer_of_overflow hroom]
      exact hf
  served hroom := Host.answer_of_served ((Host.payable_iff _).mpr hroom) hf exchange.call

/-- Each call finds the forced result that the one before it left. -/
inductive Pass : Option UInt64 → List Exchange → Option UInt64 → Prop where
  | nil (forced : Option UInt64) : Pass forced [] forced
  | cons {exchange : Exchange} {rest : List Exchange} {forced last : Option UInt64}
      (hforced : exchange.host.forced = forced) (hrest : Pass exchange.left.forced rest last) :
      Pass forced (exchange :: rest) last

namespace Pass

variable {forced middle last : Option UInt64} {first rest exchanges : List Exchange}

theorem append (h : Pass forced first middle) (hr : Pass middle rest last) :
    Pass forced (first ++ rest) last := by
  induction h with
  | nil forced => exact hr
  | cons hforced _ ih => exact .cons hforced (ih hr)

theorem of_none (h : Pass none exchanges last) :
    (∀ exchange ∈ exchanges, exchange.Unforced) ∧ last = none := by
  induction exchanges with
  | nil =>
    cases h
    exact ⟨List.forall_mem_nil _, rfl⟩
  | cons exchange rest ih =>
    cases h with
    | cons hforced hrest =>
      have hfirst : exchange.Unforced := unforced hforced
      rw [hfirst.after] at hrest
      obtain ⟨hlater, hlast⟩ := ih hrest
      exact ⟨List.forall_mem_cons.mpr ⟨hfirst, hlater⟩, hlast⟩

/-- Either no call can be charged, or the first that can be is answered by the forced result. -/
theorem of_some (h : Pass (some word) exchanges last) :
    ((∀ exchange ∈ exchanges, exchange.Overflows word) ∧ last = some word) ∨
      ∃ early first later, exchanges = early ++ first :: later ∧
        (∀ exchange ∈ early, exchange.Overflows word) ∧ first.Overridden word ∧
        (∀ exchange ∈ later, exchange.Unforced) ∧ last = none := by
  induction exchanges with
  | nil =>
    cases h
    exact Or.inl ⟨List.forall_mem_nil _, rfl⟩
  | cons exchange rest ih =>
    cases h with
    | cons hforced hrest =>
      by_cases hroom : exchange.host.cycles + 500 ≤ 2 ^ 64 - 1
      · have hfirst : exchange.Overridden word := overridden hroom hforced
        have hnone : exchange.left.forced = none := by rw [hfirst.left_eq]
        rw [hnone] at hrest
        obtain ⟨hlater, hlast⟩ := hrest.of_none
        exact Or.inr ⟨[], exchange, rest, rfl, List.forall_mem_nil _, hfirst, hlater, hlast⟩
      · have hover : exchange.Overflows word := overflows (Nat.lt_of_not_le hroom) hforced
        rw [hover.left_forced] at hrest
        rcases ih hrest with ⟨hall, hlast⟩ | ⟨early, first, later, rfl, hearly, hfirst⟩
        · exact Or.inl ⟨List.forall_mem_cons.mpr ⟨hover, hall⟩, hlast⟩
        · exact Or.inr ⟨exchange :: early, first, later, rfl,
            List.forall_mem_cons.mpr ⟨hover, hearly⟩, hfirst⟩

end Pass

end Exchange

namespace Program

variable {α : Type}

/-- The calls of a run, each with the host that it is put to. -/
def exchanges : Program α → Host → List Exchange
  | done _, _ => []
  | spin, _ => []
  | call request next, host =>
    ⟨host, request⟩ ::
      match host.answer request with
      | (.ok reply, left) => (next reply).exchanges left
      | (.error _, _) => []

theorem trace_eq_exchanges (program : Program α) (host : Host) :
    (program.run host).trace = (program.exchanges host).map Exchange.call := by
  induction program generalizing host with
  | done value => rfl
  | spin => rfl
  | call request next ih =>
    rw [run, exchanges]
    rcases host.answer request with ⟨fatal | reply, left⟩
    · rfl
    · rw [List.map_cons, ← ih reply left]
      rfl

theorem exchanges_pass (program : Program α) (host : Host) :
    Exchange.Pass host.forced (program.exchanges host) (program.run host).host.forced := by
  induction program generalizing host with
  | done value => exact .nil _
  | spin => exact .nil _
  | call request next ih =>
    rw [exchanges]
    refine .cons rfl ?_
    rw [Exchange.left, run]
    rcases host.answer request with ⟨fatal | reply, left⟩
    · exact .nil _
    · exact ih reply left

end Program

namespace Session

variable {session : Session} {step : Step} {steps : List Step} {word : UInt64}

/-- The calls that steps make one after another, each with the host that it is put to. -/
def exchanges (session : Session) : List Step → List Exchange
  | [] => []
  | step :: rest =>
    (session.programOf step).exchanges session.host ++ (session.step step).2.exchanges rest

theorem trace_eq_exchanges (session : Session) (steps : List Step) :
    (session.run steps).1.flatMap Record.trace = (session.exchanges steps).map Exchange.call := by
  induction steps generalizing session with
  | nil => rfl
  | cons step rest ih =>
    have htrace := (session.step_follows step).trace_eq
    simp only [run, exchanges, List.flatMap_cons, List.map_append]
    rw [ih, htrace, Program.trace_eq_exchanges]

theorem step_pass (hstep : ∀ result, step ≠ .setup (.forced result)) :
    Exchange.Pass session.host.forced ((session.programOf step).exchanges session.host)
      (session.step step).2.host.forced := by
  rcases session.step_cases step with ⟨change, rfl⟩ | ⟨-, hhost⟩
  · have hkept : (change.apply session.host).forced = session.host.forced := by
      cases change with
      | forced result => exact absurd rfl (hstep result)
      | _ => rfl
    simp only [step, hkept]
    exact .nil _
  · rw [hhost]
    exact Program.exchanges_pass _ _

theorem run_pass (session : Session) (hsteps : ∀ result, .setup (.forced result) ∉ steps) :
    Exchange.Pass session.host.forced (session.exchanges steps)
      (session.run steps).2.host.forced := by
  induction steps generalizing session with
  | nil => exact .nil _
  | cons step rest ih =>
    obtain ⟨hstep, hrest⟩ := forall_notMem_cons.mp hsteps
    exact (step_pass hstep).append (ih _ hrest)

/-- A forced result answers exactly one call. Calls that overflow before it leave it as it is. The
first call behind it that can be charged, whatever step and program make it, gets the word back and
leaves nothing but its mark. Every later call that can be charged is served, also in the same step,
and no result is forced any more. -/
theorem forced_word_answers_once (session : Session) (word : UInt64)
    (hsteps : ∀ result, .setup (.forced result) ∉ steps) :
    let armed := (session.step (.setup (.forced word))).2
    let exchanges := armed.exchanges steps
    let left := (armed.run steps).2.host
    (armed.run steps).1.flatMap Record.trace = exchanges.map Exchange.call ∧
    (((∀ exchange ∈ exchanges, exchange.Overflows word) ∧ left.forced = some word) ∨
      ∃ early first later, exchanges = early ++ first :: later ∧
        (∀ exchange ∈ early, exchange.Overflows word) ∧ first.Overridden word ∧
        (∀ exchange ∈ later, exchange.Unforced) ∧ left.forced = none) := by
  intro armed exchanges left
  have hpass : Exchange.Pass (some word) exchanges left.forced := armed.run_pass hsteps
  exact ⟨armed.trace_eq_exchanges steps, hpass.of_some⟩

/-- The first call overflows, and once the counter is set back the word of success answers a load
of the script instead. -/
theorem forced_word_answers_once_load :
    let session : Session := {}
    let steps : List Step := [.setup (.cycles 18446744073709551615), .perform .vmVersion,
      .setup (.cycles 0), .perform (.loadInto .script [7] 0), .perform .vmVersion]
    (∀ result, .setup (.forced result) ∉ steps) ∧
      ∃ first ∈ (session.step (.setup (.forced 0))).2.exchanges steps,
        first.call = .load 2052 1 0 0 0 0 ∧ first.Overridden 0 := by
  intro session steps
  have hsteps (result : UInt64) : .setup (.forced result) ∉ steps := by
    simp [steps]
  have hleft : ((session.step (.setup (.forced 0))).2.run steps).2.host.forced = none := by
    decide +kernel
  have honly : ∀ exchange ∈ (session.step (.setup (.forced 0))).2.exchanges steps,
      exchange.host.forced = some 0 → exchange.host.cycles + 500 ≤ 2 ^ 64 - 1 →
      exchange.call = .load 2052 1 0 0 0 0 := by
    decide +kernel
  obtain ⟨-, ⟨-, hkept⟩ | ⟨early, first, later, hsplit, -, hfirst, -⟩⟩ :=
    session.forced_word_answers_once 0 hsteps
  · rw [hleft] at hkept
    cases hkept
  · have hmem : first ∈ early ++ first :: later :=
      List.mem_append_right early List.mem_cons_self
    rw [← hsplit] at hmem
    exact ⟨hsteps, first, hmem, honly first hmem hfirst.forced_eq hfirst.room, hfirst⟩

end Session

end ScriptHost
