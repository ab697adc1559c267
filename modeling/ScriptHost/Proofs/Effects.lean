import ScriptHost.Proofs.Keeping

/-! What a step leaves on the host besides its mark in the log and the counter. A step that is
refused leaves nothing but the record of a request for another program, and a step that does not
come back leaves at most one effect, that of its first call, and only where that call was served. -/

namespace ScriptHost

namespace Session

/-- What an action hands over to be written. -/
def Action.buffer? : Action → Option Bytes
  | loadInto _ buffer _ | loadCode buffer .. | rawLoad _ buffer .. => some buffer
  | _ => none

/-- The record of the request for another program that an action makes. -/
def Action.request? : Action → Option ExecRecord
  | exec index source place bounds arguments =>
    some {
      index
      source := source.word
      place := place.word
      bounds := .ofWord bounds.toWord
      arguments := (arguments.map Terminated.write).map Host.textAt }
  | rawExec index source place bounds arguments =>
    some {
      index, source, place
      bounds := .ofWord bounds
      arguments := (arguments.map Terminated.write).map Host.textAt }
  | _ => none

/-- The action may be answered with a refusal. -/
def Action.Refusable : Action → Prop
  | loadTxHash | loadScriptHash | loadScript | loadTransaction => True
  | ask .. | exec .. | loadInto .. | loadCode .. => True
  | _ => False

/-- What the first call of an action does to the host where it is served, if the action may end
without success behind it. -/
def Action.effect (host : Host) : Action → Host
  | panic message =>
    { host with messages := host.messages ++ [Host.textAt (Program.messageBytes message)] }
  | loadScript => host.afterLoad .script
  | action =>
    match action.request? with
    | some record => { host with execs := host.execs ++ [record] }
    | none => host

section Actions

open Program

variable {host : Host}

theorem run_of_reply {α : Type} {call : Call} {next : Reply → Program α} {reply : Reply} {value : α}
    (hreply : (host.answer call).1 = .ok reply) (hnext : next reply = done value) :
    ((Program.call call next).run host).outcome = .ok value := by
  rw [Program.run]
  cases hanswer : host.answer call with
  | mk answer left =>
    rw [hanswer] at hreply
    cases hreply
    dsimp only
    rw [hnext]
    rfl

/-- An action that ends without success leaves the effect of its first call, where that was served,
and nothing else besides its mark. -/
theorem Action.run_effect (action : Action)
    (hfail : ∀ value memory, (action.program.run host).outcome ≠ .ok (.ok value memory)) :
    (if host.Serves then action.effect host else host).Keeps (action.program.run host).host := by
  have hquiet (heffect : action.effect host = host)
      (hnumbers : ∀ number ∈ action.numbers, number ∉ Host.loudNumbers) :
      (if host.Serves then action.effect host else host).Keeps
        (action.program.run host).host := by
    rw [heffect, ite_self]
    apply action.program_makes.keeps
    intro number hnumber
    exact Host.quiet_of_notMem (hnumbers number hnumber)
  cases action with
  | ask query | collect query | count query => exact hquiet rfl query.resource_quiet
  | rawWords number operands =>
    have hwords : (callWords number operands).Opens (.words number operands) := by
      apply (request_opens _).bind
      intro reply
      split <;> exact True.intro
    apply (hwords.map _).keeps_of_served
    intro hserves
    rw [Host.answer_of_serves hserves]
    exact host.keeps_spend _
  | loadInto target buffer offset =>
    have hopens : (Action.program (.loadInto target buffer offset)).Opens
        (.ofTarget target buffer.length offset) := by
      apply (load_opens target buffer offset).bind
      intro loaded
      cases loaded.answer <;> exact True.intro
    apply hopens.keeps_of_served
    intro _
    apply Host.answer_load_of_failure
    rintro ⟨result, written, length⟩ hreply hzero
    cases hzero
    exact hfail _ _ (run_of_reply hreply rfl)
  | rawLoad number buffer offset index source field =>
    apply Opens.keeps_of_served ((request_opens _).map _ |>.map _)
    intro _
    apply Host.answer_load_of_failure
    intro reply hreply _
    exact hfail _ _ (run_of_reply hreply rfl)
  | debug | debugLoading | rawDebug =>
    apply Opens.keeps_of_served ((request_opens _).map _ |>.map _)
    intro hserves
    have hreply (memory : Bytes) : (host.answer (.debug memory)).1 = .ok { result := 0 } := by
      rw [Host.answer_of_serves hserves]
      rfl
    exact (hfail _ _ (run_of_reply (hreply _) rfl)).elim
  | exec index source place bounds arguments =>
    have hopens := exec_opens index source place bounds arguments
    apply (hopens.map _).keeps_of_served
    intro hserves
    rw [Host.answer_of_serves hserves]
    rfl
  | rawExec index source place bounds arguments =>
    apply Opens.keeps_of_served ((request_opens _).map _ |>.map _)
    intro hserves
    rw [Host.answer_of_serves hserves]
    rfl
  | panic message =>
    apply (panic_opens message).keeps_of_served
    intro hserves
    rw [Host.answer_of_serves hserves]
    rfl
  | loadScript =>
    have hrun := (loadWhole .script).run_map (Answer.ofExcept (.datum ∘ .bytes)) host
    have hhost : ((Action.program .loadScript).run host).host =
        ((loadWhole .script).run host).host := congrArg Run.host hrun
    rw [hhost]
    split
    · next hserves => exact (loadWhole_script_of_serves hserves).1
    · next hserves => exact loadWhole_keeps_of_not_serves hserves .script
  | _ =>
    apply hquiet rfl
    simp only [Action.numbers, List.forall_mem_cons, List.not_mem_nil, false_implies,
      implies_true, and_true]
    decide

/-- An action that may be refused begins with a call that comes back. -/
theorem Action.asks_of_refusable {action : Action} (hr : action.Refusable) :
    action.program.Asks True abortCode := by
  cases action with
  | loadTxHash | loadScriptHash => exact (loadDigest_asks _).bind fun _ => .done _
  | loadScript | loadTransaction => exact (loadWhole_asks _).bind fun _ => .done _
  | ask query index source => exact (query.load_asks index source).bind fun _ => .done _
  | exec => exact (exec_asks _ _ _ _ _).bind fun _ => .done _
  | loadInto target buffer offset =>
    apply (load_asks target buffer offset).bind
    intro loaded
    cases loaded.answer <;> exact .done _
  | loadCode buffer offset size index source =>
    apply (loadCode_asks buffer offset size index source).bind
    rintro ⟨answer, left⟩
    cases answer <;> exact .done _
  | _ => cases hr

theorem Action.refusable_of_refused {action : Action} {error : HostError} {memory : Memory}
    (h : (action.program.run host).outcome = .ok (.refused error memory)) : action.Refusable := by
  by_contra hr
  have hgives : action.program.Gives fun answer =>
      ∀ error memory, answer ≠ .refused error memory := by
    cases action with
    | findCell digest source =>
      rw [program]
      split
      · apply Gives.bind
        exact fun _ _ _ => Answer.noConfusion
      · exact fun _ _ => Answer.noConfusion
    | exit | abort =>
      apply Gives.bind
      exact fun _ => True.intro
    | panic =>
      apply Gives.bind
      exact fun _ _ => True.intro
    | loadTxHash | loadScriptHash | loadScript | loadTransaction => exact absurd True.intro hr
    | ask | exec | loadInto | loadCode => exact absurd True.intro hr
    | _ =>
      apply Gives.bind
      exact fun _ _ _ => Answer.noConfusion
  exact hgives.of_run h error memory rfl

/-- What a refused action leaves with its caller is the memory as it was handed over. -/
theorem Action.memory_of_refused {action : Action} {error : HostError} {memory : Memory}
    (h : (action.program.run host).outcome = .ok (.refused error memory)) :
    memory = { buffer := action.buffer? } := by
  have hr := refusable_of_refused h
  have hempty (hg : action.program.Gives fun answer => ∀ error memory,
      answer = .refused error memory → memory = {}) : memory = {} :=
    hg.of_run h error memory rfl
  have hexcept {α : Type} (toValue : α → Value) (result : Except HostError α) (error : HostError)
      (memory : Memory) (hanswer : Answer.ofExcept toValue result = .refused error memory) :
      memory = {} := by
    cases result with
    | ok value => cases hanswer
    | error _ =>
      cases hanswer
      rfl
  cases action with
  | loadTxHash | loadScriptHash | loadScript | loadTransaction | ask =>
    apply hempty
    apply Gives.bind
    exact hexcept _
  | exec =>
    apply hempty
    apply Gives.bind
    intro refusal error memory hanswer
    cases hanswer
    rfl
  | loadInto target buffer offset =>
    obtain ⟨loaded, hload, hanswer⟩ := exists_of_run_bind h
    cases hloaded : loaded.answer with
    | ok length =>
      simp only [hloaded] at hanswer
      cases hanswer
    | error refusal =>
      simp only [hloaded] at hanswer
      cases hanswer
      rw [buffer_of_load_refused hload hloaded, buffer?]
  | loadCode buffer offset size index source =>
    obtain ⟨⟨answer, left⟩, hload, hanswer⟩ := exists_of_run_bind h
    cases answer with
    | ok _ => cases hanswer
    | error refusal =>
      cases hanswer
      rw [buffer_of_loadCode_refused hload, buffer?]
  | _ => cases hr

/-- All that a refused action leaves of the effect of its first call is the record of a request for
another program. -/
theorem Action.effect_of_refused {action : Action} {error : HostError} {memory : Memory}
    (h : (action.program.run host).outcome = .ok (.refused error memory)) :
    (if host.Serves then action.effect host else host) =
      { host with
        execs := host.execs ++ if host.forced = none then action.request?.toList else [] } := by
  have hr := refusable_of_refused h
  have hroom := ((asks_of_refusable hr).answered h).2
  by_cases hforced : host.forced = none
  · have hserves : host.Serves := ⟨hforced, hroom⟩
    rw [if_pos hserves, if_pos hforced]
    cases action with
    | exec => rfl
    | loadScript =>
      obtain ⟨answer, hwhole, hanswer⟩ := exists_of_run_bind h
      cases answer with
      | ok script => cases hanswer
      | error refusal => exact absurd hwhole ((loadWhole_script_of_serves hserves).2 refusal)
    | loadTxHash | loadScriptHash | loadTransaction | ask | loadInto | loadCode =>
      change host = { host with execs := host.execs ++ [] }
      rw [List.append_nil]
    | _ => cases hr
  · have hserves : ¬ host.Serves := fun hserves => hforced hserves.1
    rw [if_neg hserves, if_neg hforced, List.append_nil]

theorem rawLoad_memory {number : UInt64} {buffer : Bytes} {offset index source field word : UInt64}
    {memory : Memory}
    (h : ((Action.program (.rawLoad number buffer offset index source field)).run host).outcome =
      .ok (.ok (.word word) memory)) (hword : word ≠ 0) :
    memory = { buffer := some buffer, length := some buffer.length } := by
  obtain ⟨delivery, hload, hanswer⟩ := exists_of_run_bind h
  cases hanswer
  have hgives (reply : Reply) : (done (⟨reply.result, reply.length.getD buffer.length,
      Bytes.overwrite buffer reply.written, Bytes.length_overwrite buffer reply.written⟩ :
        Delivery buffer.length)).Gives fun delivery =>
      reply.result = delivery.result ∧ delivery.length = reply.length.getD buffer.length ∧
        delivery.buffer = Bytes.overwrite buffer reply.written := ⟨rfl, rfl, rfl⟩
  obtain ⟨reply, hreply, hresult, hlength, hbuffer⟩ := gives_of_request hgives hload
  rw [← hresult] at hword
  obtain ⟨hwritten, hnone⟩ := Host.answer_memory hreply hword
  rw [hlength, hbuffer, hwritten, hnone, Bytes.overwrite_nil, Option.getD_none]

end Actions

/-- What a step hands over to be written. -/
def Step.buffer? : Step → Option Bytes
  | perform action => action.buffer?
  | _ => none

/-- The record of the request for another program that a step makes. -/
def Step.request? : Step → Option ExecRecord
  | perform action => action.request?
  | _ => none

/-- The host with the effect of the first call of a step, where that call is served and the step may
end without success behind it. -/
def Step.aftermath (host : Host) : Step → Host
  | perform action => if host.Serves then action.effect host else host
  | _ => host

variable {session : Session} {step : Step}

/-- An answer that is not fatal is one that the program of the action came back with. -/
theorem outcome_of_perform {action : Action} {answer : Answer}
    (h : (session.step (.perform action)).1.answer = answer)
    (hback : ∀ reason, answer ≠ .fatal reason) :
    (action.program.run session.host).outcome = .ok answer := by
  simp only [Session.step, perform] at h
  split at h
  · next houtcome => rw [houtcome, h]
  · exact absurd h.symm (hback _)

theorem advance_ne_refused (session : Session) (id : Nat) (move : Move) {error : HostError}
    {memory : Memory} : (session.step (.advance id move)).1.answer ≠ .refused error memory := by
  intro h
  simp only [Session.step] at h
  split at h
  · simp only [Session.advance] at h
    split at h <;> cases h
  · cases h

/-- A step that does not come back leaves the effect of its first call, and nothing else besides its
mark. -/
theorem aftermath_keeps_of_fatal {reason : Fatal}
    (h : (session.step step).1.answer = .fatal reason) :
    (step.aftermath session.host).Keeps (session.step step).2.host := by
  cases step with
  | setup | observe | openCursor => cases h
  | perform action =>
    have hfatal := (session.perform_fatal_iff action reason).mp h
    apply action.run_effect
    intro value memory hok
    cases hfatal.symm.trans hok
  | advance id move =>
    cases hcursor : session.cursor? id with
    | none =>
      simp only [Session.step, hcursor] at h
      cases h
    | some cursor =>
      have hmakes := move.program_makes cursor
      have hwalk := hmakes.keeps fun number hnumber =>
        session.host.quiet_of_notMem (cursor.query.resource_quiet number hnumber)
      simp only [Session.step, hcursor, Session.advance]
      cases ((move.program cursor).run session.host).outcome <;> exact hwalk

/-- A step that fails leaves no partial effect. What the host holds is never changed, the script
apart. -/
theorem failure_leaves_no_effect (session : Session) {step : Step}
    (hs : ∀ change, step ≠ .setup change) :
    let host := session.host
    let record := (session.step step).1
    let left := (session.step step).2.host
    (left.holdings = { host.holdings with script := left.holdings.script } ∧
      left.vmVersion = host.vmVersion) ∧
    (∀ error memory, record.answer = .refused error memory →
      memory = { buffer := step.buffer? } ∧
      left = { host with
        calls := host.calls ++ record.trace.map Call.number
        cycles := host.cycles + 500 * record.trace.length
        forced := none
        execs := host.execs ++ if host.forced = none then step.request?.toList else [] }) ∧
    (∀ reason, record.answer = .fatal reason → ∃ charged,
      left = { step.aftermath host with
        calls := host.calls ++ record.trace.map Call.number
        cycles := host.cycles + 500 * charged
        forced := if charged = 0 then host.forced else none } ∧
      (charged = record.trace.length ∨
        reason = .cycleOverflow ∧ charged + 1 = record.trace.length)) ∧
    (∀ number buffer offset index source field word memory,
      step = .perform (.rawLoad number buffer offset index source field) →
      record.answer = .ok (.word word) memory → word ≠ 0 →
      memory = { buffer := some buffer, length := some buffer.length }) := by
  intro host record left
  obtain ⟨htrace, hfatal⟩ := session.step_follows step
  have hhost : left = ((session.programOf step).run host).host := session.step_host hs
  have hends := (session.programOf step).run_ends host
  have hcalls := hends.calls_eq
  obtain ⟨charged, hcycles, hforced, hover, hall⟩ := hends.exists_charged
  rw [← hhost, ← htrace] at hcalls
  rw [← hhost] at hcycles hforced
  rw [← htrace] at hover hall
  refine ⟨⟨?_, ?_⟩, ?_, ?_, ?_⟩
  · obtain ⟨script, hholdings⟩ := (session.programOf step).run_holdings host
    rw [← hhost] at hholdings
    rw [hholdings]
  · rw [hhost]
    exact (session.programOf step).run_vmVersion host
  · intro error memory hrefused
    cases step with
    | setup | observe | openCursor => cases hrefused
    | advance id move => exact absurd hrefused (session.advance_ne_refused id move)
    | perform action =>
      have houtcome := outcome_of_perform hrefused fun _ => Answer.noConfusion
      have hasks := Action.asks_of_refusable (Action.refusable_of_refused houtcome)
      have hkeeps : (if host.Serves then action.effect host else host).Keeps left := by
        apply action.run_effect
        intro value memory hok
        cases houtcome.symm.trans hok
      have hcharged : charged = record.trace.length := by
        apply hall
        intro hstop
        cases ((hfatal _).mpr hstop).symm.trans hrefused
      have hcalled : charged ≠ 0 := by
        have hcall := List.length_pos_iff.mpr (hasks.answered houtcome).1
        rw [hcharged]
        exact Nat.ne_of_gt hcall
      rw [if_neg hcalled] at hforced
      rw [Action.effect_of_refused houtcome, Host.Keeps, hcalls, hcycles, hforced,
        hcharged] at hkeeps
      exact ⟨Action.memory_of_refused houtcome, hkeeps⟩
  · intro reason hreason
    have houtcome := (hfatal reason).mp hreason
    refine ⟨charged, ?_, ?_⟩
    · have hkeeps := aftermath_keeps_of_fatal hreason
      rw [Host.Keeps] at hkeeps
      rw [← hcalls, ← hcycles, ← hforced]
      exact hkeeps
    · by_cases hoverflow : reason = .cycleOverflow
      · right
        subst hoverflow
        exact ⟨rfl, hover houtcome⟩
      · left
        apply hall
        intro hstop
        exact hoverflow (Except.error.inj (houtcome.symm.trans hstop))
  · rintro number buffer offset index source field word memory rfl hanswer hword
    have houtcome := outcome_of_perform hanswer fun _ => Answer.noConfusion
    exact rawLoad_memory houtcome hword

/-- A request for a program in a cell that is missing is refused and is recorded all the same. -/
theorem failure_leaves_no_effect_exec :
    let session : Session := {}
    let step : Step := .perform (.exec 0 .input .cellData .whole [])
    (∀ change, step ≠ .setup change) ∧
      (session.step step).2.host =
        { calls := [2043]
          cycles := 500
          execs := [{ index := 0, source := 1, place := 0, bounds := ⟨0, 0⟩, arguments := [] }] } := by
  intro session step
  have hs (change : Setup) : step ≠ .setup change := Step.noConfusion
  have hrefused : (session.step step).1.answer = .refused .itemMissing {} := rfl
  have hfails := (session.failure_leaves_no_effect hs).2.1 _ _ hrefused
  exact ⟨hs, hfails.2.trans (by decide +kernel)⟩

end Session

end ScriptHost
