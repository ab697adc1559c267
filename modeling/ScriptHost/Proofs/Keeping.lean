import ScriptHost.Proofs.Accounting
import ScriptHost.Proofs.Calling
import ScriptHost.Proofs.FailStop
import ScriptHost.Proofs.ScriptExchange

/-! What calls and programs leave on a host besides their mark in the log and the counter. Only a
served call can leave more, and it does so for three kinds of calls alone: those that print, those
that ask for another program, and a load of the script while another is to take its place. -/

namespace ScriptHost

namespace Host

variable {host left middle : Host} {call : Call} {number : UInt64} {reply : Reply}

/-- The host is as before, apart from the log, the counter and the forced result. -/
def Keeps (host left : Host) : Prop :=
  left = { host with calls := left.calls, cycles := left.cycles, forced := left.forced }

theorem Keeps.refl (host : Host) : host.Keeps host := rfl

theorem Keeps.trans (h : host.Keeps middle) (hl : middle.Keeps left) : host.Keeps left := by
  unfold Keeps at h hl ⊢
  rw [hl, h]

theorem keeps_spend (host : Host) (calls : List Call) : host.Keeps (host.spend calls) := rfl

/-- The host can charge a call and serves it itself. -/
def Serves (host : Host) : Prop :=
  host.forced = none ∧ host.cycles + 500 ≤ 2 ^ 64 - 1

instance (host : Host) : Decidable host.Serves :=
  inferInstanceAs (Decidable (_ ∧ _))

theorem Serves.affords (h : host.Serves) : host.Affords 1 := by
  have hroom := h.2
  simp only [Affords, cyclesPerCall]
  omega

theorem answer_of_serves (h : host.Serves) (call : Call) :
    host.answer call = (host.spend [call]).serve call := by
  have hroom : host.cycles ≤ payable := (payable_iff _).mpr h.2
  exact answer_of_served hroom h.1 call

/-- A call that is not served leaves its mark alone, and a forced result comes without bytes and
without a length. -/
theorem answer_of_not_serves (h : ¬ host.Serves) (call : Call) :
    host.Keeps (host.answer call).2 ∧
      ∀ reply, (host.answer call).1 = .ok reply → reply.written = [] ∧ reply.length = none := by
  by_cases hroom : host.cycles ≤ payable
  · cases hf : host.forced with
    | some word =>
      rw [answer_of_forced hroom hf]
      refine ⟨rfl, ?_⟩
      intro reply hreply
      cases hreply
      exact ⟨rfl, rfl⟩
    | none => exact absurd ⟨hf, (payable_iff _).mp hroom⟩ h
  · rw [answer_of_overflow hroom]
    refine ⟨rfl, ?_⟩
    intro reply hreply
    cases hreply

/-- A load that brings no item brings nothing and changes nothing. -/
theorem serve_load_of_failure {capacity : Nat} {offset index source field : UInt64}
    (h : ∀ reply, (host.serve (.load number capacity offset index source field)).1 = .ok reply →
      reply.result ≠ 0) :
    (host.serve (.load number capacity offset index source field)).2 = host := by
  simp only [serve] at h ⊢
  split
  · next resource hresource =>
    simp only [hresource, serveLoad] at h ⊢
    split
    · next item hitem =>
      simp only [hitem] at h
      exact absurd rfl (h _ rfl)
    · rfl
  · rfl

theorem answer_load_of_failure {capacity : Nat} {offset index source field : UInt64}
    (h : ∀ reply, (host.answer (.load number capacity offset index source field)).1 = .ok reply →
      reply.result ≠ 0) :
    host.Keeps (host.answer (.load number capacity offset index source field)).2 := by
  by_cases hserves : host.Serves
  · rw [answer_of_serves hserves] at h ⊢
    rw [serve_load_of_failure h]
    exact keeps_spend host _
  · exact (answer_of_not_serves hserves _).1

/-- A word that is not that of success comes without bytes and without a length. -/
theorem serve_memory (h : (host.serve call).1 = .ok reply) (hr : reply.result ≠ 0) :
    reply.written = [] ∧ reply.length = none := by
  cases call with
  | load number capacity offset index source field =>
    simp only [serve] at h
    split at h
    · simp only [serveLoad] at h
      split at h
      · cases h
        exact absurd rfl hr
      · cases h
        exact ⟨rfl, rfl⟩
    · cases h
  | loadCode capacity offset size index source =>
    simp only [serve, serveCode] at h
    split at h
    · cases h
      exact ⟨rfl, rfl⟩
    · split at h
      · cases h
        exact absurd rfl hr
      · cases h
        exact ⟨rfl, rfl⟩
  | exec index source place bounds arguments =>
    simp only [serve, serveExec] at h
    split at h
    · cases h
      exact ⟨rfl, rfl⟩
    · split at h
      · cases h
      · cases h
        exact ⟨rfl, rfl⟩
  | debug memory =>
    cases h
    exact ⟨rfl, rfl⟩
  | words number operands =>
    simp only [serve, serveWords] at h
    split_ifs at h <;> cases h <;> exact ⟨rfl, rfl⟩

theorem answer_memory (h : (host.answer call).1 = .ok reply) (hr : reply.result ≠ 0) :
    reply.written = [] ∧ reply.length = none := by
  by_cases hserves : host.Serves
  · rw [answer_of_serves hserves] at h
    exact serve_memory h hr
  · exact (answer_of_not_serves hserves call).2 reply h

/-- Calls of the number leave nothing on the host but their mark. -/
def Quiet (host : Host) (number : UInt64) : Prop :=
  number ≠ Call.execNumber ∧ number ≠ Call.debugNumber ∧
    (number = Resource.script.number → host.nextScript = none)

theorem Keeps.quiet (h : host.Keeps left) (hq : host.Quiet number) : left.Quiet number := by
  rw [h]
  exact hq

theorem serve_of_quiet (hq : host.Quiet call.number) : (host.serve call).2 = host := by
  obtain ⟨hexec, hdebug, hscript⟩ := hq
  cases call with
  | load number capacity offset index source field =>
    simp only [serve]
    split
    · next resource hresource =>
      rw [Resource.ofNumber?] at hresource
      have hfound := List.find?_some hresource
      have hnumber : resource.number = number := of_decide_eq_true hfound
      have hsteady : host.Steady resource := by
        rintro rfl
        exact hscript hnumber.symm
      simp only [serveLoad]
      split
      · exact hsteady.afterLoad_eq
      · rfl
    · rfl
  | loadCode | words => rfl
  | exec => exact absurd rfl hexec
  | debug => exact absurd rfl hdebug

theorem answer_keeps_of_quiet (hq : host.Quiet call.number) : host.Keeps (host.answer call).2 := by
  by_cases hserves : host.Serves
  · rw [answer_of_serves hserves, serve_of_quiet ((keeps_spend host [call]).quiet hq)]
    exact keeps_spend host [call]
  · exact (answer_of_not_serves hserves call).1

/-- The numbers of the calls that may leave more than their mark. -/
def loudNumbers : List UInt64 :=
  [Call.execNumber, Call.debugNumber, Resource.script.number]

theorem quiet_of_notMem (h : number ∉ loudNumbers) : host.Quiet number := by
  rw [loudNumbers, List.mem_cons, List.mem_cons, List.mem_singleton, not_or, not_or] at h
  exact ⟨h.1, h.2.1, fun hscript => absurd hscript h.2.2⟩

/-- A load of the script is quiet where no other script is to take its place. -/
theorem script_quiet (hn : host.nextScript = none) :
    ∀ number ∈ [Resource.script.number, Call.exitNumber], host.Quiet number := by
  intro number hnumber
  have hloud : number ≠ Call.execNumber ∧ number ≠ Call.debugNumber := by
    rw [List.mem_cons, List.mem_singleton] at hnumber
    rcases hnumber with rfl | rfl <;> decide
  exact ⟨hloud.1, hloud.2, fun _ => hn⟩

end Host

theorem Query.resource_quiet (query : Query) :
    ∀ number ∈ [query.resource.number, Call.exitNumber], number ∉ Host.loudNumbers := by
  rw [List.forall_mem_cons, List.forall_mem_singleton]
  cases query <;> decide

/-- What a run has been charged for: all its calls, or all but the last if it overflows. The first
call that is charged uses up what was forced. -/
theorem Run.Ends.exists_charged {α : Type} {host : Host} {run : Run α} (h : run.Ends host) :
    ∃ charged, run.host.cycles = host.cycles + 500 * charged ∧
      run.host.forced = (if charged = 0 then host.forced else none) ∧
      (run.outcome = .error .cycleOverflow → charged + 1 = run.trace.length) ∧
      (run.outcome ≠ .error .cycleOverflow → charged = run.trace.length) := by
  have hforced {trace : List Call} {left : Host} (hreplies : host.Replies trace left) :
      left.forced = if trace.length = 0 then host.forced else none := by
    cases hreplies with
    | nil => rfl
    | cons hcall hrest =>
      exact (Host.Replies.cons hcall hrest).forced_eq_none (Or.inr (List.cons_ne_nil _ _))
  cases h with
  | finished hreplies =>
    refine ⟨_, hreplies.cycles_eq, hforced hreplies, ?_, fun _ => rfl⟩
    intro hover
    cases hover
  | waiting hreplies =>
    refine ⟨_, hreplies.cycles_eq, hforced hreplies, ?_, fun _ => rfl⟩
    intro hover
    cases hover
  | @stopped earlier last middle left fatal hreplies hlast =>
    have hmiddle := hreplies.cycles_eq
    have hlength : (earlier ++ [last]).length = earlier.length + 1 := List.length_append
    by_cases hover : fatal = .cycleOverflow
    · subst hover
      have hleft := (Host.answer_of_cycleOverflow hlast).2
      refine ⟨earlier.length, ?_, ?_, fun _ => hlength.symm, fun h => absurd rfl h⟩
      · rw [hleft]
        exact hmiddle
      · have hnone : middle.forced = _ := hforced hreplies
        rw [hleft]
        exact hnone
    · obtain ⟨hroom, hcycles⟩ := Host.answer_of_fatal hlast hover
      obtain ⟨script, nextScript, messages, execs, hanswer⟩ := Host.answer_frame hroom last
      have hnone : left.forced = none := by
        rw [hlast] at hanswer
        exact congrArg Host.forced hanswer
      refine ⟨earlier.length + 1, ?_, hnone, ?_, fun _ => hlength.symm⟩
      · simp only [Host.cyclesPerCall] at hcycles hmiddle
        rw [hcycles, hmiddle, Nat.mul_add, Nat.add_assoc]
      · intro h
        exact absurd (Except.error.inj h) hover

namespace Program

variable {α β : Type} {program : Program α} {numbers : List UInt64} {host : Host} {call : Call}

theorem run_map (program : Program α) (f : α → β) (host : Host) :
    (program.bind fun value => done (f value)).run host =
      ⟨(program.run host).outcome.map f, (program.run host).trace, (program.run host).host⟩ := by
  rw [run_bind]
  rcases program.run host with ⟨fatal | value, trace, left⟩
  · rfl
  · simp only [Run.andThen, run, List.append_nil, Except.map]

theorem run_vmVersion (program : Program α) (host : Host) :
    (program.run host).host.vmVersion = host.vmVersion := by
  apply run_preserves (P := fun left => left.vmVersion = host.vmVersion) _ program rfl
  intro before call h
  rw [← h]
  by_cases hroom : before.cycles ≤ Host.payable
  · obtain ⟨script, nextScript, messages, execs, hanswer⟩ := Host.answer_frame hroom call
    rw [hanswer]
    rfl
  · rw [Host.answer_of_overflow hroom]
    rfl

/-- A program that makes quiet calls alone leaves nothing but their marks. -/
theorem Makes.keeps (h : program.Makes numbers) (hq : ∀ number ∈ numbers, host.Quiet number) :
    host.Keeps (program.run host).host := by
  induction program generalizing host with
  | done value => exact .refl host
  | spin => exact .refl host
  | call request next ih =>
    have hfirst := Host.answer_keeps_of_quiet (hq _ h.1)
    rw [run]
    cases hanswer : host.answer request with
    | mk answer left =>
      rw [hanswer] at hfirst
      cases answer with
      | error fatal => exact hfirst
      | ok reply =>
        have hleft : ∀ number ∈ numbers, left.Quiet number :=
          fun number hnumber => hfirst.quiet (hq number hnumber)
        exact hfirst.trans (ih reply (h.2 reply) hleft)

/-- The program makes the call before any other, and at most exits after it. -/
inductive Opens (call : Call) : Program α → Prop where
  | call {next : Reply → Program α} (hnext : ∀ reply, (next reply).Makes [Call.exitNumber]) :
      Opens call (.call call next)

theorem Opens.bind (h : program.Opens call) {next : α → Program β}
    (hn : ∀ value, (next value).Makes [Call.exitNumber]) : (program.bind next).Opens call := by
  cases h with
  | call hnext =>
    apply Opens.call
    intro reply
    exact (hnext reply).bind hn

theorem Opens.map (h : program.Opens call) (f : α → β) :
    (program.bind fun value => done (f value)).Opens call :=
  h.bind fun _ => True.intro

theorem request_opens (call : Call) : (request call).Opens call :=
  .call fun _ => True.intro

theorem Opens.keeps (h : program.Opens call) (host : Host) :
    (host.answer call).2.Keeps (program.run host).host := by
  cases h with
  | @call next hnext =>
    rw [run]
    cases hanswer : host.answer call with
    | mk answer left =>
      cases answer with
      | error fatal => exact .refl left
      | ok reply =>
        apply (hnext reply).keeps
        intro number hnumber
        rw [List.mem_singleton.mp hnumber]
        exact Host.quiet_of_notMem (by decide)

theorem exits_alone : Call.exitNumber ∈ [Call.exitNumber] :=
  List.mem_singleton_self _

theorem load_opens (target : Target) (buffer : Bytes) (offset : UInt64) :
    (load target buffer offset).Opens (.ofTarget target buffer.length offset) := by
  apply ((request_opens _).map _).bind
  intro delivery
  exact (check_makes exits_alone _).map _

theorem exec_opens (index : UInt64) (source : Source) (place : Place) (bounds : Bounds)
    (arguments : List Bytes) :
    (exec index source place bounds arguments).Opens (.exec index source.word place.word
      bounds.toWord (arguments.map Terminated.write)) := by
  apply ((request_opens _).map _).bind
  intro result
  apply (check_makes exits_alone result).bind
  intro status
  cases status with
  | error error => exact True.intro
  | ok _ => exact abort_makes exits_alone

theorem panic_opens (message : String) :
    (panic message : Program α).Opens (.debug (messageBytes message)) := by
  apply ((request_opens _).map _).bind
  intro _
  exact exit_makes exits_alone panicCode

/-- What a program comes back with is what its reading of the first reply gives. -/
theorem gives_of_request {P : Reply → α → Prop} {next : Reply → Program α}
    (hg : ∀ reply, (next reply).Gives (P reply)) {value : α}
    (h : (((request call).bind next).run host).outcome = .ok value) :
    ∃ reply, (host.answer call).1 = .ok reply ∧ P reply value := by
  rw [request, bind, run] at h
  cases hanswer : host.answer call with
  | mk answer left =>
    rw [hanswer] at h
    cases answer with
    | error fatal => cases h
    | ok reply => exact ⟨reply, rfl, (hg reply).of_run h⟩

/-- A result word that is read as a refusal is not that of success. -/
theorem check_bind_gives {P : β → Prop} {next : Except HostError Unit → Program β} (word : UInt64)
    (hok : (next (.ok ())).Gives P)
    (herror : ∀ error, word ≠ 0 → (next (.error error)).Gives P) :
    ((check word).bind next).Gives P := by
  by_cases hzero : word = 0
  · subst hzero
    exact hok
  · rw [check]
    split
    · exact hok
    · exact herror _ hzero
    · exact fun _ => True.intro

/-- What a load leaves with its caller, told by the reply to its call. -/
theorem exists_reply_of_load {target : Target} {buffer : Bytes} {offset : UInt64}
    {loaded : Loaded buffer.length}
    (h : ((load target buffer offset).run host).outcome = .ok loaded) :
    ∃ reply, (host.answer (.ofTarget target buffer.length offset)).1 = .ok reply ∧
      loaded.buffer = Bytes.overwrite buffer reply.written ∧
      (∀ length, loaded.answer = .ok length → length = reply.length.getD buffer.length) ∧
      (∀ error, loaded.answer = .error error → reply.result ≠ 0) := by
  apply gives_of_request _ h
  intro reply
  apply check_bind_gives
  · refine ⟨rfl, ?_, ?_⟩
    · intro length hlength
      exact (Except.ok.inj hlength).symm
    · intro error herror
      cases herror
  · intro error hword
    refine ⟨rfl, ?_, fun _ _ => hword⟩
    intro length hlength
    cases hlength

theorem buffer_of_load_refused {target : Target} {buffer : Bytes} {offset : UInt64}
    {loaded : Loaded buffer.length} {error : HostError}
    (h : ((load target buffer offset).run host).outcome = .ok loaded)
    (hrefused : loaded.answer = .error error) : loaded.buffer = buffer := by
  obtain ⟨reply, hreply, hbuffer, -, hword⟩ := exists_reply_of_load h
  have hnothing := (Host.answer_memory hreply (hword error hrefused)).1
  rw [hbuffer, hnothing, Bytes.overwrite_nil]

theorem buffer_of_loadCode_refused {buffer left : Bytes} {offset size index : UInt64}
    {source : Source} {error : HostError}
    (h : ((loadCode buffer offset size index source).run host).outcome =
      .ok (.error error, left)) : left = buffer := by
  have hgives (reply : Reply) : ((check reply.result).bind fun status =>
      done (status, Bytes.overwrite buffer reply.written)).Gives fun result =>
        ∀ error, result.1 = .error error →
          reply.result ≠ 0 ∧ result.2 = Bytes.overwrite buffer reply.written := by
    apply check_bind_gives
    · intro error herror
      cases herror
    · intro _ hword _ _
      exact ⟨hword, rfl⟩
  obtain ⟨reply, hreply, hrefused⟩ := gives_of_request hgives h
  obtain ⟨hword, hleft⟩ := hrefused error rfl
  rw [(Host.answer_memory hreply hword).1, Bytes.overwrite_nil] at hleft
  exact hleft

/-- A sequence that comes back has come back from its first part. -/
theorem exists_of_run_bind {next : α → Program β} {value : β}
    (h : ((program.bind next).run host).outcome = .ok value) :
    ∃ first, (program.run host).outcome = .ok first ∧
      ((next first).run (program.run host).host).outcome = .ok value := by
  rw [run_bind, Run.andThen] at h
  cases hfirst : (program.run host).outcome with
  | error fatal =>
    rw [hfirst] at h
    cases h
  | ok first =>
    rw [hfirst] at h
    exact ⟨first, rfl, h⟩

/-- A program that begins with a call and comes back has had this call answered. -/
theorem Asks.answered {replacing : Prop} {code : Int8} {value : α}
    (h : program.Asks replacing code) (ho : (program.run host).outcome = .ok value) :
    (program.run host).trace ≠ [] ∧ host.cycles + 500 ≤ 2 ^ 64 - 1 := by
  cases h with
  | @call request next hsafe hnext =>
    rw [run] at ho ⊢
    cases hanswer : host.answer request with
    | mk answer left =>
      rw [hanswer] at ho
      cases answer with
      | error fatal => cases ho
      | ok reply =>
        have hroom := (Host.answer_of_reply hanswer).1
        exact ⟨List.cons_ne_nil _ _, (Host.payable_iff _).mp hroom⟩

/-- What is left of a program by its first call alone. -/
theorem Opens.keeps_of_served (h : program.Opens call) {changed : Host}
    (hserved : host.Serves → changed.Keeps (host.answer call).2) :
    (if host.Serves then changed else host).Keeps (program.run host).host := by
  have hrest := h.keeps host
  split
  · next hserves => exact (hserved hserves).trans hrest
  · next hserves => exact (Host.answer_of_not_serves hserves call).1.trans hrest

/-- A load of unknown length whose first call is not served leaves nothing but the marks of its
calls: a forced result does not make it fetch more. -/
theorem loadWhole_keeps_of_not_serves (h : ¬ host.Serves) (target : Target) :
    host.Keeps ((loadWhole target).run host).host := by
  obtain ⟨hfirst, hreply⟩ :=
    Host.answer_of_not_serves h (.ofTarget target (Bytes.zeros probeSize).length 0)
  have hprobe := hfirst.trans ((load_opens target (Bytes.zeros probeSize) 0).keeps host)
  rw [loadWhole_eq, run_bind, Run.andThen]
  cases hload : ((load target (Bytes.zeros probeSize) 0).run host).outcome with
  | error fatal => exact hprobe
  | ok probe =>
    obtain ⟨reply, hok, -, hlength, -⟩ := exists_reply_of_load hload
    cases hanswer : probe.answer with
    | error error =>
      simp only [hanswer]
      exact hprobe
    | ok length =>
      have hcapacity : length = probeSize := by
        rw [hlength length hanswer, (hreply reply hok).2, Option.getD_none, Bytes.length_zeros]
      simp only [hanswer, if_pos (Nat.le_of_eq hcapacity)]
      exact hprobe

/-- A load of the script whose first call is served leaves the script exchanged, if it is to be, and
is not refused. -/
theorem loadWhole_script_of_serves (h : host.Serves) :
    (host.afterLoad .script).Keeps ((loadWhole .script).run host).host ∧
      ∀ error, ((loadWhole .script).run host).outcome ≠ .ok (.error error) := by
  have hexit : Call.exitNumber ∈ [Target.script.resource.number, Call.exitNumber] :=
    List.mem_cons_of_mem _ exits_alone
  cases hn : host.nextScript with
  | none =>
    have hsteady : host.Steady Target.script.resource := fun _ => hn
    have hmakes := loadWhole_makes hexit List.mem_cons_self
    have houtcome := (loadWhole_yields h.1 hsteady).outcome_run
    have hread : host.holdings.read .script = .ok host.holdings.script := rfl
    constructor
    · rw [Host.afterLoad_of_none hn]
      exact hmakes.keeps (Host.script_quiet hn)
    · intro error herror
      rw [houtcome, hread] at herror
      split at herror <;> cases herror
  | some new =>
    let left := (host.spend [probeCall .script]).exchanged new
    have hsteady : left.Steady Target.script.resource := fun _ => rfl
    have hleft : (host.exchanged new).Keeps left := rfl
    rw [Host.afterLoad_of_some hn, run_loadWhole_script h.1 h.affords rfl hn]
    split
    · refine ⟨hleft, ?_⟩
      intro error herror
      cases herror
    · next hlong =>
      let probe := host.holdings.script.take probeSize
      let length := host.holdings.script.length
      have hmakes := complete_makes hexit List.mem_cons_self probe length
      have hrest : left.Keeps ((complete .script probe length).run left).host :=
        hmakes.keeps (Host.script_quiet rfl)
      have hforced : left.forced = none := h.1
      have hread : left.holdings.read .script = .ok new := rfl
      dsimp only [Run.precededBy]
      refine ⟨hleft.trans hrest, ?_⟩
      intro error herror
      by_cases hsame : new.length = length
      · have hlong : probeSize ≤ new.length := by omega
        have hyields := complete_yields hforced hsteady hread hlong probe
        rw [hsame] at hyields
        rw [hyields.outcome_run] at herror
        split at herror <;> cases herror
      · have hyields := complete_yields_abort hforced hsteady hread hsame probe
        rw [hyields.outcome_run] at herror
        split at herror <;> cases herror

end Program

end ScriptHost
