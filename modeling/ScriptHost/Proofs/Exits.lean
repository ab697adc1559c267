import ScriptHost.Proofs.FailStop

/-! How the steps of a session end that run typed programs. An exit is the last call of its step,
and the step is fatal. -/

namespace ScriptHost

/-- How an exit ends on a host. There may be no room to charge it, and a forced result lets it come
back to a program that has nothing more to do. -/
def Host.exitFatal (host : Host) (code : Int8) : Fatal :=
  if host.cycles ≤ Host.payable then
    match host.forced with
    | some _ => .exitReturned
    | none => .exited code
  else .cycleOverflow

theorem Host.exitFatal_of_unforced {host : Host} (hf : host.forced = none) (code : Int8) :
    host.exitFatal code =
      if host.cycles + 500 ≤ 2 ^ 64 - 1 then .exited code else .cycleOverflow := by
  rw [exitFatal, hf]
  simp only [payable_iff]

theorem Program.exit_eq {α : Type} (code : Int8) :
    (exit code : Program α) = .call (exitCall code) fun _ => .spin := rfl

theorem Program.run_exit {α : Type} (host : Host) (code : Int8) :
    (exit code : Program α).run host =
      ⟨.error (host.exitFatal code), [exitCall code], (host.answer (exitCall code)).2⟩ := by
  rw [exit_eq, run, Host.exitFatal]
  by_cases hroom : host.cycles ≤ Host.payable
  · rw [if_pos hroom]
    cases hforced : host.forced with
    | some result =>
      rw [Host.answer_of_forced hroom hforced]
      rfl
    | none =>
      rw [Host.answer_of_served hroom hforced, exitCall, Host.serve, Host.serveWords, if_pos rfl,
        exit_code_of_operand]
  · rw [if_neg hroom, Host.answer_of_overflow hroom]

theorem Call.Safe.answer_fatal {replacing : Prop} {call : Call} (h : call.Safe replacing)
    {host left : Host} {fatal : Fatal} (hanswer : host.answer call = (.error fatal, left)) :
    fatal = .cycleOverflow ∨ replacing ∧ fatal = .replaced := by
  by_cases hroom : host.cycles ≤ Host.payable
  · cases hforced : host.forced with
    | some result =>
      rw [Host.answer_of_forced hroom hforced] at hanswer
      cases hanswer
    | none =>
      rw [Host.answer_of_served hroom hforced] at hanswer
      exact Or.inr (h _ fatal (congrArg Prod.fst hanswer))
  · rw [Host.answer_of_overflow hroom] at hanswer
    cases hanswer
    exact Or.inl rfl

namespace Run

variable {α : Type} {replacing : Prop} {code : Int8} {host middle : Host} {call : Call}
  {reply : Reply} {run : Run α}

/-- How the run of a fail-stop program comes to its end. -/
inductive Stops (replacing : Prop) (code : Int8) (host : Host) : Run α → Prop where
  | finished {value : α} {trace : List Call} {left : Host} (hreplies : host.Replies trace left)
      (hsafe : ∀ call ∈ trace, call.Safe replacing) :
      Stops replacing code host ⟨.ok value, trace, left⟩
  | stopped {earlier : List Call} {last : Call} {middle left : Host} {fatal : Fatal}
      (hreplies : host.Replies earlier middle) (hsafe : ∀ call ∈ earlier, call.Safe replacing)
      (hcall : last.Safe replacing) (hlast : middle.answer last = (.error fatal, left)) :
      Stops replacing code host ⟨.error fatal, earlier ++ [last], left⟩
  | exited {earlier : List Call} {middle : Host} (hreplies : host.Replies earlier middle)
      (hsafe : ∀ call ∈ earlier, call.Safe replacing) :
      Stops replacing code host ⟨.error (middle.exitFatal code),
        earlier ++ [Program.exitCall code], (middle.answer (Program.exitCall code)).2⟩

theorem Stops.precededBy (hcall : host.answer call = (.ok reply, middle))
    (hsafe : call.Safe replacing) (h : run.Stops replacing code middle) :
    (run.precededBy call).Stops replacing code host := by
  cases h with
  | finished hreplies hrest =>
    exact .finished (.cons hcall hreplies) (List.forall_mem_cons.mpr ⟨hsafe, hrest⟩)
  | stopped hreplies hrest hlast hanswer =>
    exact .stopped (.cons hcall hreplies) (List.forall_mem_cons.mpr ⟨hsafe, hrest⟩) hlast hanswer
  | exited hreplies hrest =>
    exact .exited (.cons hcall hreplies) (List.forall_mem_cons.mpr ⟨hsafe, hrest⟩)

theorem Stops.exit_last (h : run.Stops replacing code host)
    (hexit : ∃ call ∈ run.trace, call.number = Call.exitNumber) :
    ∃ earlier middle, run.trace = earlier ++ [Program.exitCall code] ∧
      (∀ call ∈ earlier, call.number ≠ Call.exitNumber) ∧ host.Replies earlier middle ∧
      run.outcome = .error (middle.exitFatal code) := by
  obtain ⟨call, hmem, hnumber⟩ := hexit
  cases h with
  | finished hreplies hsafe => exact absurd hnumber (hsafe call hmem).number_ne_exit
  | stopped hreplies hsafe hlast hanswer =>
    rcases List.mem_append.mp hmem with hearlier | hlater
    · exact absurd hnumber (hsafe call hearlier).number_ne_exit
    · rw [List.mem_singleton.mp hlater] at hnumber
      exact absurd hnumber hlast.number_ne_exit
  | exited hreplies hsafe =>
    exact ⟨_, _, rfl, fun other hother => (hsafe other hother).number_ne_exit, hreplies, rfl⟩

theorem Stops.fatal_cases (h : run.Stops replacing code host) {fatal : Fatal}
    (ho : run.outcome = .error fatal) :
    fatal = .cycleOverflow ∨ replacing ∧ fatal = .replaced ∨ fatal = .exited code ∨
      fatal = .exitReturned := by
  cases h with
  | finished hreplies hsafe => cases ho
  | stopped hreplies hsafe hlast hanswer =>
    cases ho
    rcases hlast.answer_fatal hanswer with hover | hreplaced
    · exact Or.inl hover
    · exact Or.inr (Or.inl hreplaced)
  | @exited earlier middle hreplies hsafe =>
    cases ho
    rw [Host.exitFatal]
    split
    · split
      · exact Or.inr (Or.inr (Or.inr rfl))
      · exact Or.inr (Or.inr (Or.inl rfl))
    · exact Or.inl rfl

theorem Stops.outcome_ne_exitReturned (h : run.Stops replacing code host)
    (hf : host.forced = none) : run.outcome ≠ .error .exitReturned := by
  intro ho
  cases h with
  | finished hreplies hsafe => cases ho
  | stopped hreplies hsafe hlast hanswer =>
    cases ho
    rcases hlast.answer_fatal hanswer with hover | ⟨_, hreplaced⟩
    · cases hover
    · cases hreplaced
  | @exited earlier middle hreplies hsafe =>
    have hmiddle := hreplies.forced_eq_none (Or.inl hf)
    simp only [Host.exitFatal, hmiddle] at ho
    split at ho <;> cases ho

end Run

namespace Program

variable {α : Type} {replacing : Prop} {code : Int8} {program : Program α}

theorem FailStop.run_stops (h : program.FailStop replacing code) (host : Host) :
    (program.run host).Stops replacing code host := by
  induction h generalizing host with
  | done value => exact .finished (.nil host) (List.forall_mem_nil _)
  | @exit next hspin =>
    -- What follows the call of an exit is never run, so that it may be taken for a wait.
    have hnext : next = fun _ => .spin := funext hspin
    rw [hnext, ← exit_eq, run_exit]
    exact .exited (.nil host) (List.forall_mem_nil _)
  | @call request next hsafe hnext ih =>
    rw [run]
    cases hanswer : host.answer request with
    | mk answer left =>
      cases answer with
      | error fatal => exact .stopped (.nil host) (List.forall_mem_nil _) hsafe hanswer
      | ok reply => exact (ih reply left).precededBy hanswer hsafe

theorem Asks.outcome_ne_exitReturned (h : program.Asks replacing code) (host : Host) :
    (program.run host).outcome ≠ .error .exitReturned := by
  cases h with
  | @call request next hsafe hnext =>
    rw [run]
    cases hanswer : host.answer request with
    | mk answer left =>
      cases answer with
      | error fatal =>
        intro ho
        cases ho
        rcases hsafe.answer_fatal hanswer with hover | ⟨_, hreplaced⟩
        · cases hover
        · cases hreplaced
      | ok reply =>
        have hleft : left.forced = none := (Host.answer_of_reply hanswer).2.2.2
        exact ((hnext reply).run_stops left).outcome_ne_exitReturned hleft

/-- Programs that make no call, or begin with a safe one. -/
inductive Cautious (replacing : Prop) (code : Int8) : Program α → Prop where
  | done (value : α) : Cautious replacing code (.done value)
  | asks {program : Program α} (h : program.Asks replacing code) : Cautious replacing code program

namespace Cautious

theorem failStop (h : program.Cautious replacing code) : program.FailStop replacing code := by
  cases h with
  | done value => exact .done value
  | asks h => exact h.failStop

theorem forget (h : program.Cautious replacing code) : program.forget.Cautious replacing code := by
  cases h with
  | done value => exact .done ()
  | asks h => exact .asks (h.bind fun _ => .done ())

theorem outcome_ne_exitReturned (h : program.Cautious replacing code) (host : Host) :
    (program.run host).outcome ≠ .error .exitReturned := by
  cases h with
  | done value =>
    intro ho
    cases ho
  | asks h => exact h.outcome_ne_exitReturned host

end Cautious

end Program

namespace Session

/-- The action makes one call as it stands, and goes through no typed program. -/
def Action.Raw : Action → Prop
  | rawWords .. | rawLoad .. | rawExec .. | rawDebug .. => True
  | _ => False

/-- The action does nothing but end the program. -/
def Action.Exits : Action → Prop
  | exit _ | abort => True
  | _ => False

/-- The action asks for another program. -/
def Action.Replaces : Action → Prop
  | exec .. => True
  | _ => False

/-- The code that an action ends with if it exits. -/
def Action.exitCode : Action → Int8
  | exit code => code
  | panic _ => -1
  | _ => -2

theorem Action.program_exits {action : Action} (h : action.Exits) :
    action.program = Program.exit action.exitCode := by
  cases action with
  | exit | abort => rfl
  | _ => cases h

theorem Action.program_cautious {action : Action} (hraw : ¬ action.Raw) (hexits : ¬ action.Exits) :
    action.program.Cautious action.Replaces action.exitCode := by
  cases action with
  | exit | abort => exact absurd True.intro hexits
  | rawWords | rawLoad | rawExec | rawDebug => exact absurd True.intro hraw
  | findCell digest source =>
    rw [program]
    split
    · exact .asks ((Query.findCellByDataHash_asks _ source).bind fun _ => .done _)
    · exact .done _
  | loadInto target buffer offset =>
    apply Program.Cautious.asks
    apply (Program.load_asks target buffer offset).bind
    intro loaded
    cases loaded.answer <;> exact .done _
  | loadCode buffer offset size index source =>
    apply Program.Cautious.asks
    apply (Program.loadCode_asks buffer offset size index source).bind
    rintro ⟨answer, left⟩
    cases answer <;> exact .done _
  | loadTxHash => exact .asks ((Program.loadDigest_asks _).bind fun _ => .done _)
  | loadScriptHash => exact .asks ((Program.loadDigest_asks _).bind fun _ => .done _)
  | vmVersion => exact .asks ((Program.callWords_asks (.vmVersion _)).bind fun _ => .done _)
  | currentCycles => exact .asks ((Program.callWords_asks (.currentCycles _)).bind fun _ => .done _)
  | exec => exact .asks ((Program.exec_asks _ _ _ _ _).bind fun _ => .done _)
  | debug => exact .asks ((Program.debug_asks _).bind fun _ => .done _)
  | debugLoading => exact .asks ((Program.debug_asks _).bind fun _ => .done _)
  | panic message => exact .asks (Program.panic_asks message)
  | loadScript => exact .asks ((Program.loadWhole_asks _).bind fun _ => .done _)
  | loadTransaction => exact .asks ((Program.loadWhole_asks _).bind fun _ => .done _)
  | ask => exact .asks ((Query.load_asks _ _ _).bind fun _ => .done _)
  | collect => exact .asks ((Query.collect_asks _ _).bind fun _ => .done _)
  | count => exact .asks ((Query.count_asks _ _).bind fun _ => .done _)

theorem Move.program_cautious (move : Move) (cursor : Cursor) :
    (move.program cursor).Cautious False Program.abortCode := by
  cases move with
  | next => exact .asks (cursor.next_asks.bind fun _ => .done _)
  | nth skip => exact .asks ((Cursor.nth_asks skip cursor).bind fun _ => .done _)
  | take limit =>
    cases limit with
    | zero => exact .done _
    | succ limit =>
      exact .asks ((Cursor.take_asks (Cursor.take_failStop limit) cursor).bind fun _ => .done _)

/-- The step runs a typed program, if it runs one at all. -/
def Step.Typed : Step → Prop
  | .perform action => ¬ action.Raw
  | _ => True

def Step.Exits : Step → Prop
  | .perform action => action.Exits
  | _ => False

def Step.Replaces : Step → Prop
  | .perform action => action.Replaces
  | _ => False

def Step.exitCode : Step → Int8
  | .perform action => action.exitCode
  | _ => -2

variable {step : Step}

theorem programOf_exits (session : Session) (h : step.Exits) :
    session.programOf step = Program.exit step.exitCode := by
  cases step with
  | perform action =>
    rw [programOf, Action.program_exits h]
    rfl
  | _ => cases h

theorem programOf_cautious (session : Session) (ht : step.Typed) (hexits : ¬ step.Exits) :
    (session.programOf step).Cautious step.Replaces step.exitCode := by
  cases step with
  | setup | observe | openCursor => exact .done ()
  | perform action => exact (Action.program_cautious ht hexits).forget
  | advance id move =>
    rw [programOf]
    cases session.cursor? id with
    | none => exact .done ()
    | some cursor => exact (move.program_cautious cursor).forget

theorem programOf_failStop (session : Session) (ht : step.Typed) :
    (session.programOf step).FailStop step.Replaces step.exitCode := by
  by_cases hexits : step.Exits
  · rw [session.programOf_exits hexits]
    exact Program.exit_failStop _
  · exact (session.programOf_cautious ht hexits).failStop

/-- Only an exit of its own comes back to a step, and only with a forced result. -/
theorem exitReturned_iff (session : Session) (ht : step.Typed) :
    ((session.programOf step).run session.host).outcome = .error .exitReturned ↔
      step.Exits ∧ session.host.forced ≠ none ∧ session.host.cycles ≤ Host.payable := by
  by_cases hexits : step.Exits
  · rw [session.programOf_exits hexits, Program.run_exit, Host.exitFatal]
    cases hforced : session.host.forced <;> by_cases hroom : session.host.cycles ≤ Host.payable <;>
      simp [hexits, hroom]
  · have hreturned := (session.programOf_cautious ht hexits).outcome_ne_exitReturned session.host
    exact iff_of_false hreturned fun h => hexits h.1

/-- An exit is the only one of its step and its last call, and makes the step fatal. Where it is
served, the step ends with its code: minus one for a panic, the code it was given for an exit, and
minus two for everything else. It comes back only when the step is an exit and a forced result lets
it. No typed step makes a call that the host does not know, and only a request for another program
is answered by one. -/
theorem exit_is_last (session : Session) (ht : step.Typed) :
    let record := (session.step step).1
    ((∃ call ∈ record.trace, call.number = 93) →
      ∃ earlier middle reason, record.trace = earlier ++ [Program.exitCall step.exitCode] ∧
        (∀ call ∈ earlier, call.number ≠ 93) ∧ session.host.Replies earlier middle ∧
        record.answer = .fatal reason ∧
        (middle.cycles + 500 ≤ 2 ^ 64 - 1 → middle.forced = none →
          reason = .exited step.exitCode ∧
            reason.message = "Mocked exit called with code " ++ toString step.exitCode.toInt)) ∧
    (record.answer = .fatal .exitReturned ↔
      step.Exits ∧ session.host.forced ≠ none ∧ session.host.cycles + 500 ≤ 2 ^ 64 - 1) ∧
    (∀ code, record.answer = .fatal (.exited code) → code = step.exitCode) ∧
    (∀ number, record.answer ≠ .fatal (.unknownNumber number)) ∧
    (record.answer = .fatal .replaced → step.Replaces) := by
  intro record
  obtain ⟨htrace, hfatal⟩ := session.step_follows step
  have hstops := (session.programOf_failStop ht).run_stops session.host
  simp only [record, htrace, hfatal, ne_eq]
  refine ⟨?_, ?_, ?_, ?_, ?_⟩
  · intro hexit
    obtain ⟨earlier, middle, hlast, hearlier, hreplies, houtcome⟩ := hstops.exit_last hexit
    refine ⟨earlier, middle, _, hlast, hearlier, hreplies, houtcome, ?_⟩
    intro hcycles hforced
    have hroom : middle.cycles ≤ Host.payable := (Host.payable_iff _).mpr hcycles
    rw [Host.exitFatal, if_pos hroom, hforced]
    exact ⟨rfl, rfl⟩
  · rw [session.exitReturned_iff ht, Host.payable_iff]
  · intro code houtcome
    rcases hstops.fatal_cases houtcome with hover | ⟨_, hreplaced⟩ | hcode | hreturned
    · cases hover
    · cases hreplaced
    · exact Fatal.exited.inj hcode
    · cases hreturned
  · intro number houtcome
    rcases hstops.fatal_cases houtcome with hover | ⟨_, hreplaced⟩ | hcode | hreturned
    · cases hover
    · cases hreplaced
    · cases hcode
    · cases hreturned
  · intro houtcome
    rcases hstops.fatal_cases houtcome with hover | ⟨hreplaces, _⟩ | hcode | hreturned
    · cases hover
    · exact hreplaces
    · cases hcode
    · cases hreturned

/-- A forced result lets the debug call of a panic come back, and the exit is served. -/
theorem exit_is_last_panic :
    let session : Session := { host := { forced := some 7 } }
    let step : Step := .perform (.panic "no")
    step.Typed ∧ (session.step step).1.answer = .fatal (.exited (-1)) ∧
      (Fatal.exited (-1)).message = "Mocked exit called with code -1" := by
  intro session step
  have ht : step.Typed := id
  have htrace : (session.step step).1.trace =
      [.debug [110, 111, 0], Program.exitCall (-1)] := by
    decide +kernel
  have hexit : ∃ call ∈ (session.step step).1.trace, call.number = 93 := by
    rw [htrace]
    exact ⟨_, List.mem_cons_of_mem _ (List.mem_singleton_self _), rfl⟩
  obtain ⟨earlier, middle, reason, hlast, _, hreplies, hanswer, hserved⟩ :=
    (session.exit_is_last ht).1 hexit
  have hearlier : earlier = [.debug [110, 111, 0]] := by
    rw [htrace] at hlast
    exact (List.append_inj_left' hlast rfl).symm
  have hne : earlier ≠ [] := by
    rw [hearlier]
    exact List.cons_ne_nil _ _
  have hcycles : middle.cycles = 500 := by
    rw [hreplies.cycles_eq, hearlier]
    rfl
  have hroom : middle.cycles + 500 ≤ 2 ^ 64 - 1 := by
    rw [hcycles]
    decide
  obtain ⟨hreason, _⟩ := hserved hroom (hreplies.forced_eq_none (Or.inr hne))
  refine ⟨ht, ?_, by decide +kernel⟩
  rw [hanswer, hreason]
  rfl

end Session

end ScriptHost
