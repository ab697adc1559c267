import ScriptHost.Proofs.Exchange
import ScriptHost.Session.Basic

/-! Steps of a session as runs of programs. All that a step does to the host is done by the one
program that it runs, and the step is fatal exactly when this program does not come back. -/

namespace ScriptHost

namespace Program

variable {α β : Type} {program : Program α}

/-- A value that the program comes back with satisfies `P`, whatever the replies are. -/
def Gives (P : α → Prop) : Program α → Prop
  | done value => P value
  | spin => True
  | call _ next => ∀ reply, (next reply).Gives P

theorem Gives.bind {P : β → Prop} {next : α → Program β} (h : ∀ value, (next value).Gives P) :
    (program.bind next).Gives P := by
  induction program with
  | done value => exact h value
  | spin => exact True.intro
  | call request rest ih => exact ih

theorem Gives.of_run {P : α → Prop} (h : program.Gives P) {host : Host} {value : α}
    (hrun : (program.run host).outcome = .ok value) : P value := by
  induction program generalizing host with
  | done result =>
    cases hrun
    exact h
  | spin => cases hrun
  | call request next ih =>
    rw [run] at hrun
    cases hanswer : host.answer request with
    | mk answer left =>
      rw [hanswer] at hrun
      cases answer with
      | error fatal => cases hrun
      | ok reply => exact ih reply (h reply) hrun

def forget (program : Program α) : Program Unit :=
  program.bind fun _ => done ()

theorem run_forget (program : Program α) (host : Host) :
    program.forget.run host =
      ⟨(program.run host).outcome.map fun _ => (), (program.run host).trace,
        (program.run host).host⟩ := by
  rw [forget, run_bind]
  rcases program.run host with ⟨fatal | value, trace, left⟩
  · rfl
  · simp only [Run.andThen, run, List.append_nil, Except.map]

end Program

namespace Session

theorem Answer.ofExcept_ne_fatal {α : Type} (toValue : α → Value) (result : Except HostError α)
    (reason : Fatal) : ofExcept toValue result ≠ .fatal reason := by
  cases result <;> exact Answer.noConfusion

/-- No action gives back a fatal answer as its value. -/
theorem Action.gives_answer (action : Action) :
    action.program.Gives fun answer => ∀ reason, answer ≠ .fatal reason := by
  cases action with
  | loadTxHash | loadScriptHash | loadScript | loadTransaction | ask =>
    apply Program.Gives.bind
    exact Answer.ofExcept_ne_fatal _
  | loadInto target buffer offset =>
    apply Program.Gives.bind
    intro loaded
    cases loaded.answer <;> exact fun _ => Answer.noConfusion
  | loadCode buffer offset size index source =>
    apply Program.Gives.bind
    rintro ⟨answer, left⟩
    cases answer <;> exact fun _ => Answer.noConfusion
  | findCell digest source =>
    rw [program]
    split
    · apply Program.Gives.bind
      exact fun _ _ => Answer.noConfusion
    · exact fun _ => Answer.noConfusion
  | exit | abort =>
    apply Program.Gives.bind
    exact fun _ => True.intro
  | panic =>
    apply Program.Gives.bind
    exact fun _ _ => True.intro
  | _ =>
    apply Program.Gives.bind
    exact fun _ _ => Answer.noConfusion

/-- A step makes the calls of a run, and is fatal just when the run has no value. -/
structure Follows (record : Record) (run : Run Unit) : Prop where
  trace_eq : record.trace = run.trace
  fatal_iff : ∀ reason, record.answer = .fatal reason ↔ run.outcome = .error reason

variable {record : Record}

theorem Follows.idle (host : Host) (htrace : record.trace = [])
    (hback : ∀ reason, record.answer ≠ .fatal reason) :
    Follows record ((Program.done ()).run host) where
  trace_eq := htrace
  fatal_iff reason := by
    constructor
    · intro h
      exact absurd h (hback reason)
    · intro h
      cases h

theorem Follows.forget {α : Type} {program : Program α} {host : Host}
    (htrace : record.trace = (program.run host).trace)
    (hfatal : ∀ reason, record.answer = .fatal reason ↔
      (program.run host).outcome = .error reason) :
    Follows record (program.forget.run host) := by
  rw [Program.run_forget]
  refine ⟨htrace, ?_⟩
  intro reason
  rw [hfatal]
  cases (program.run host).outcome <;> simp [Except.map]

/-- The program that a step runs. A step that looks at the host, or changes it from outside, runs
the one that makes no call. -/
def programOf (session : Session) : Step → Program Unit
  | .setup _ | .observe _ | .openCursor .. => .done ()
  | .perform action => action.program.forget
  | .advance id move =>
    match session.cursor? id with
    | some cursor => (move.program cursor).forget
    | none => .done ()

theorem step_of_run_ok {session : Session} {action : Action} {answer : Answer} {trace : List Call}
    {left : Host} (hrun : action.program.run session.host = ⟨.ok answer, trace, left⟩) :
    session.step (.perform action) = (⟨answer, trace⟩, { session with host := left }) := by
  simp only [step, perform, hrun]

theorem step_of_run_error {session : Session} {action : Action} {fatal : Fatal}
    {trace : List Call} {left : Host}
    (hrun : action.program.run session.host = ⟨.error fatal, trace, left⟩) :
    session.step (.perform action) = (⟨.fatal fatal, trace⟩, { session with host := left }) := by
  simp only [step, perform, hrun]

theorem perform_fatal_iff (session : Session) (action : Action) (reason : Fatal) :
    (session.perform action).1.answer = .fatal reason ↔
      (action.program.run session.host).outcome = .error reason := by
  rw [perform]
  cases houtcome : (action.program.run session.host).outcome with
  | error fatal => simp
  | ok answer =>
    have hanswer := action.gives_answer.of_run houtcome
    simp [hanswer reason]

/-- An action that only reads answers as its program says, unless the counter stops it. -/
theorem perform_of_yields {session : Session} {action : Action} {answer : Answer}
    {trace : List Call} (h : action.program.Yields session.host (.ok answer) trace)
    (hover : (session.step (.perform action)).1.answer ≠ .fatal .cycleOverflow) :
    (session.step (.perform action)).1.answer = answer := by
  have houtcome : (action.program.run session.host).outcome ≠ .error .cycleOverflow := by
    intro hcycle
    exact hover ((session.perform_fatal_iff action .cycleOverflow).mpr hcycle)
  have ha : session.host.Affords trace.length := h.affords houtcome
  simp only [step, perform, h.run_host ha]

theorem perform_ne_overflow {session : Session} {action : Action} {answer : Answer}
    {trace : List Call} (h : action.program.Yields session.host (.ok answer) trace)
    (ha : session.host.Affords trace.length) :
    (session.step (.perform action)).1.answer ≠ .fatal .cycleOverflow := by
  intro hover
  have houtcome := (session.perform_fatal_iff action .cycleOverflow).mp hover
  rw [h.run_host ha] at houtcome
  cases houtcome

theorem step_follows (session : Session) (step : Step) :
    Follows (session.step step).1 ((session.programOf step).run session.host) := by
  cases step with
  | setup | observe | openCursor => exact .idle session.host rfl fun _ => Answer.noConfusion
  | perform action => exact .forget rfl (session.perform_fatal_iff action)
  | advance id move =>
    cases hcursor : session.cursor? id with
    | none =>
      simp only [step, programOf, hcursor]
      exact .idle session.host rfl fun _ => Answer.noConfusion
    | some cursor =>
      simp only [step, programOf, hcursor, advance]
      cases houtcome : ((move.program cursor).run session.host).outcome with
      | error fatal => exact .forget rfl (by simp [houtcome])
      | ok moved => exact .forget rfl (by simp [houtcome, Answer.value])

/-- Changes from outside apart, a step leaves the host as its run does. -/
theorem step_host (session : Session) {step : Step} (hs : ∀ change, step ≠ .setup change) :
    (session.step step).2.host = ((session.programOf step).run session.host).host := by
  cases step with
  | setup change => exact absurd rfl (hs change)
  | observe | openCursor => rfl
  | perform action =>
    rw [programOf, Program.run_forget]
    rfl
  | advance id move =>
    cases hcursor : session.cursor? id with
    | none =>
      simp only [step, programOf, hcursor]
      rfl
    | some cursor =>
      simp only [step, programOf, hcursor, advance, Program.run_forget]
      cases ((move.program cursor).run session.host).outcome <;> rfl

theorem run_snoc (session : Session) (steps : List Step) (step : Step) :
    (session.run (steps ++ [step])).2 = ((session.run steps).2.step step).2 := by
  rw [run_append]
  rfl

/-- Steps of a kind are missing from a list when the first step is not of this kind and they are
missing from the rest. -/
theorem forall_notMem_cons {α : Type} {kind : α → Step} {step : Step} {rest : List Step} :
    (∀ value, kind value ∉ step :: rest) ↔
      (∀ value, step ≠ kind value) ∧ ∀ value, kind value ∉ rest := by
  simp only [List.mem_cons, not_or, forall_and, ne_eq, eq_comm]

theorem step_cases (session : Session) (step : Step) :
    (∃ change, step = .setup change) ∨
      (∀ change, step ≠ .setup change) ∧
        (session.step step).2.host = ((session.programOf step).run session.host).host := by
  by_cases hs : ∃ change, step = .setup change
  · exact Or.inl hs
  · have hno (change : Setup) : step ≠ .setup change := fun h => hs ⟨change, h⟩
    exact Or.inr ⟨hno, session.step_host hno⟩

end Session

end ScriptHost
