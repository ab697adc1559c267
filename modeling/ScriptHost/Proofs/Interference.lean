import ScriptHost.Proofs.Keeping

/-! Two runs of a session that differ by one step. What such a step leaves behind is told by what it
inserts into the logs of the host and adds to its counter, and no other step can see it but those
that look at a log or at the counter. -/

namespace ScriptHost

/-- A piece that one of two logs has and the other lacks, and what stands before it in both. -/
structure Inset (α : Type) where
  before : List α
  extra : List α

namespace Inset

variable {α : Type} {inset : Inset α} {list other : List α}

def empty : Inset α :=
  ⟨[], []⟩

/-- The other list has the piece, and is else the same. -/
def Between (inset : Inset α) (list other : List α) : Prop :=
  ∃ rest, list = inset.before ++ rest ∧ other = inset.before ++ inset.extra ++ rest

theorem Between.append (h : inset.Between list other) (more : List α) :
    inset.Between (list ++ more) (other ++ more) := by
  obtain ⟨rest, rfl, rfl⟩ := h
  exact ⟨rest ++ more, by simp only [List.append_assoc], by simp only [List.append_assoc]⟩

theorem between_empty (list : List α) : empty.Between list list :=
  ⟨list, rfl, rfl⟩

theorem between_append (list extra : List α) : Between ⟨list, extra⟩ list (list ++ extra) :=
  ⟨[], (List.append_nil list).symm, (List.append_nil _).symm⟩

end Inset

/-- What a step has left behind on a host: pieces of the logs, and the charge for its calls. -/
structure Residue where
  calls : Inset UInt64
  cycles : Nat
  messages : Inset String
  execs : Inset ExecRecord

namespace Residue

/-- The other host differs by the residue alone. -/
structure Between (residue : Residue) (host other : Host) : Prop where
  holdings : other.holdings = host.holdings
  vmVersion : other.vmVersion = host.vmVersion
  forced : other.forced = host.forced
  nextScript : other.nextScript = host.nextScript
  calls : residue.calls.Between host.calls other.calls
  cycles : other.cycles = host.cycles + residue.cycles
  messages : residue.messages.Between host.messages other.messages
  execs : residue.execs.Between host.execs other.execs

end Residue

/-- The call asks for the cycles that have been charged. -/
def Call.Metered : Call → Prop
  | words number _ => number = currentCyclesNumber
  | _ => False

theorem Resource.number_blind (resource : Resource) :
    Call.currentCyclesNumber ∉ [resource.number, Call.exitNumber] := by
  cases resource <;> decide

theorem Call.number_eq_of_metered {call : Call} (h : call.Metered) :
    call.number = currentCyclesNumber := by
  cases call with
  | words number operands => exact h
  | _ => cases h

namespace Host

variable {residue : Residue} {host other : Host} {call : Call}

/-- What serves a call sees nothing of a residue, unless it is asked for the cycles. -/
theorem serve_between (h : residue.Between host other) (hcall : ¬ call.Metered) :
    (other.serve call).1 = (host.serve call).1 ∧
      residue.Between (host.serve call).2 (other.serve call).2 := by
  cases call with
  | load number capacity offset index source field =>
    simp only [serve]
    split
    · next resource _ =>
      simp only [serveLoad, h.holdings]
      split
      · refine ⟨rfl, ?_⟩
        cases resource with
        | script =>
          simp only [afterLoad, h.nextScript]
          split
          · exact { h with holdings := by simp only [h.holdings], nextScript := rfl }
          · exact h
        | _ => exact h
      · exact ⟨rfl, h⟩
    · exact ⟨rfl, h⟩
  | loadCode capacity offset size index source =>
    simp only [serve, serveCode, h.holdings]
    exact ⟨trivial, h⟩
  | exec index source place bounds arguments =>
    constructor
    · simp only [serve, serveExec, h.holdings]
    · exact { h with execs := h.execs.append _ }
  | debug memory => exact ⟨rfl, { h with messages := h.messages.append _ }⟩
  | words number operands =>
    have hnumber : number ≠ Call.currentCyclesNumber := hcall
    simp only [serve, serveWords, h.vmVersion, if_neg hnumber]
    exact ⟨trivial, h⟩

/-- A call that both hosts can charge gets the same answer from both, unless it asks for the cycles
and no result is forced. -/
theorem answer_between (h : residue.Between host other)
    (hcall : call.Metered → host.forced ≠ none) (hroom : host.cycles ≤ payable)
    (hroom' : other.cycles ≤ payable) :
    (other.answer call).1 = (host.answer call).1 ∧
      residue.Between (host.answer call).2 (other.answer call).2 := by
  have hcharged : residue.Between (host.note call.number).charge (other.note call.number).charge :=
    { h with
      calls := h.calls.append _
      cycles := by
        simp only [charge, note, h.cycles]
        omega }
  cases hforced : host.forced with
  | some word =>
    have hforced' : other.forced = some word := h.forced.trans hforced
    rw [answer_of_forced hroom hforced, answer_of_forced hroom' hforced']
    exact ⟨rfl, { hcharged with forced := rfl }⟩
  | none =>
    have hforced' : other.forced = none := h.forced.trans hforced
    rw [answer_of_served hroom hforced, answer_of_served hroom' hforced']
    exact serve_between hcharged fun hmetered => hcall hmetered hforced

/-- The host is as before, apart from its counter and from what was added to its logs. -/
def Appends (host left : Host) : Prop :=
  ∃ messages execs, left =
    { host with
      calls := left.calls
      cycles := left.cycles
      messages := host.messages ++ messages
      execs := host.execs ++ execs }

theorem Appends.refl (host : Host) : host.Appends host :=
  ⟨[], [], by simp only [List.append_nil]⟩

theorem Appends.trans {middle left : Host} (h : host.Appends middle) (hl : middle.Appends left) :
    host.Appends left := by
  obtain ⟨messages, execs, hmiddle⟩ := h
  obtain ⟨messages', execs', hleft⟩ := hl
  refine ⟨messages ++ messages', execs ++ execs', ?_⟩
  rw [hleft, hmiddle]
  simp only [List.append_assoc]

theorem serve_appends (hn : host.nextScript = none) (call : Call) :
    host.Appends (host.serve call).2 := by
  cases call with
  | load number capacity offset index source field =>
    simp only [serve]
    split
    · next resource _ =>
      simp only [serveLoad, afterLoad_of_none hn]
      split <;> exact .refl host
    · exact .refl host
  | loadCode | words => exact .refl host
  | exec index source place bounds arguments =>
    refine ⟨[], [⟨index, source, place, .ofWord bounds, arguments.map textAt⟩], ?_⟩
    rw [List.append_nil]
    rfl
  | debug memory =>
    refine ⟨[textAt memory], [], ?_⟩
    rw [List.append_nil]
    rfl

theorem answer_appends (hf : host.forced = none) (hn : host.nextScript = none) (call : Call) :
    host.Appends (host.answer call).2 := by
  have hmark (calls : List UInt64) (cycles : Nat) :
      host.Appends { host with calls, cycles } :=
    ⟨[], [], by simp only [List.append_nil]⟩
  by_cases hroom : host.cycles ≤ payable
  · have hcharged : host.Appends (host.note call.number).charge := hmark _ _
    have hnext : (host.note call.number).charge.nextScript = none := hn
    rw [answer_of_served hroom hf]
    exact hcharged.trans (serve_appends hnext call)
  · rw [answer_of_overflow hroom]
    exact hmark _ _

end Host

/-- Two runs end in the same way and with the same calls, on hosts that differ by a residue. -/
structure Run.Agrees {α : Type} (residue : Residue) (run other : Run α) : Prop where
  outcome : other.outcome = run.outcome
  trace : other.trace = run.trace
  between : residue.Between run.host other.host

namespace Program

variable {α : Type} {program : Program α} {numbers : List UInt64} {residue : Residue}
  {host other : Host} {call : Call} {next : Reply → Program α}

theorem room_of_run (ho : ((Program.call call next).run host).outcome ≠ .error .cycleOverflow) :
    host.cycles ≤ Host.payable := by
  by_contra hroom
  rw [run, Host.answer_of_overflow hroom] at ho
  exact ho rfl

/-- Programs agree that begin with a call which gets the same answer, if what follows agrees. -/
theorem run_call_agrees (h : residue.Between host other)
    (hcall : call.Metered → host.forced ≠ none)
    (hnext : ∀ reply {left left' : Host}, residue.Between left left' →
      ((next reply).run left).outcome ≠ .error .cycleOverflow →
      ((next reply).run left').outcome ≠ .error .cycleOverflow →
      ((next reply).run left).Agrees residue ((next reply).run left'))
    (ho : ((Program.call call next).run host).outcome ≠ .error .cycleOverflow)
    (ho' : ((Program.call call next).run other).outcome ≠ .error .cycleOverflow) :
    ((Program.call call next).run host).Agrees residue ((Program.call call next).run other) := by
  obtain ⟨hanswer, hbetween⟩ := Host.answer_between h hcall (room_of_run ho) (room_of_run ho')
  rw [run] at ho ho' ⊢
  rw [run]
  cases hleft : host.answer call with
  | mk answer left =>
    cases hother : other.answer call with
    | mk answer' left' =>
      rw [hleft] at ho hanswer hbetween
      rw [hother] at ho' hanswer hbetween
      dsimp only at hanswer hbetween
      subst hanswer
      cases answer' with
      | error fatal => exact ⟨rfl, rfl, hbetween⟩
      | ok reply =>
        have hrest := hnext reply hbetween ho ho'
        exact ⟨hrest.outcome, congrArg (call :: ·) hrest.trace, hrest.between⟩

/-- A program that does not ask for the cycles sees nothing of a residue. -/
theorem Makes.run_agrees (hm : program.Makes numbers) (hn : Call.currentCyclesNumber ∉ numbers)
    (h : residue.Between host other)
    (ho : (program.run host).outcome ≠ .error .cycleOverflow)
    (ho' : (program.run other).outcome ≠ .error .cycleOverflow) :
    (program.run host).Agrees residue (program.run other) := by
  induction program generalizing host other with
  | done value => exact ⟨rfl, rfl, h⟩
  | spin => exact ⟨rfl, rfl, h⟩
  | call request next ih =>
    apply run_call_agrees h _ _ ho ho'
    · intro hmetered
      rw [← Call.number_eq_of_metered hmetered] at hn
      exact absurd hm.1 hn
    · intro reply left left' hbetween hback hback'
      exact ih reply (hm.2 reply) hbetween hback hback'

/-- Where nothing is forced and no script is to be exchanged, a run only adds to the logs. -/
theorem run_appends (program : Program α) (hf : host.forced = none) (hn : host.nextScript = none) :
    host.Appends (program.run host).host := by
  apply run_preserves (P := host.Appends) _ program (.refl host)
  intro middle call h
  have hsame : middle.forced = none ∧ middle.nextScript = none := by
    obtain ⟨messages, execs, hmiddle⟩ := h
    rw [hmiddle]
    exact ⟨hf, hn⟩
  exact h.trans (Host.answer_appends hsame.1 hsame.2 call)

/-- A call that asks for the cycles is answered with them, its own charge included. -/
theorem run_meter (hf : host.forced = none) (operands : Operands) (answer : UInt64 → α)
    (ho : ((Program.call (.words Call.currentCyclesNumber operands) fun reply =>
      done (answer reply.result)).run host).outcome ≠ .error .cycleOverflow) :
    (Program.call (.words Call.currentCyclesNumber operands) fun reply =>
      done (answer reply.result)).run host =
        ⟨.ok (answer (UInt64.ofNat (host.cycles + 500))),
          [.words Call.currentCyclesNumber operands],
          host.spend [.words Call.currentCyclesNumber operands]⟩ ∧
      host.cycles + 500 < UInt64.size := by
  have hroom := room_of_run ho
  rw [run, Host.answer_of_served hroom hf]
  exact ⟨rfl, (Host.le_payable_iff _).mp hroom⟩

end Program

namespace Session

variable {residue : Residue} {session other : Session} {step : Step} {steps : List Step}

/-- Of what a step leaves behind, what is still there once another step has set the counter or
cleared the log. -/
def Step.pass (residue : Residue) : Step → Residue
  | setup (.cycles _) => { residue with cycles := 0 }
  | setup .clearCalls => { residue with calls := .empty }
  | _ => residue

/-- What is left of a residue after some steps. -/
def leftover (residue : Residue) (steps : List Step) : Residue :=
  steps.foldl Step.pass residue

/-- The action asks for the cycles that have been charged. -/
def Action.Metered : Action → Prop
  | currentCycles => True
  | rawWords number _ => number = Call.currentCyclesNumber
  | _ => False

/-- The step asks for the cycles that have been charged. -/
def Step.Metered : Step → Prop
  | perform action => action.Metered
  | _ => False

/-- No step lacks room in the counter. -/
def CanPay (session : Session) (steps : List Step) : Prop :=
  ∀ record ∈ (session.run steps).1, record.answer ≠ .fatal .cycleOverflow

/-- Two sessions have the same walks, on hosts that differ by a residue. -/
structure Between (residue : Residue) (session other : Session) : Prop where
  host : residue.Between session.host other.host
  cursors : other.cursors = session.cursors

/-- How a step is answered in two sessions that differ by a residue. -/
structure Agrees (residue : Residue) (step : Step) (session other : Session) : Prop where
  trace : (other.step step).1.trace = (session.step step).1.trace
  answer : (step.Metered → session.host.forced ≠ none) → (∀ view, step ≠ .observe view) →
    (other.step step).1.answer = (session.step step).1.answer
  cycles : step.Metered → session.host.forced = none → ∃ count count',
    (session.step step).1.answer = .value (.word count) ∧
      (other.step step).1.answer = .value (.word count') ∧
      count'.toNat = count.toNat + residue.cycles
  view : ∀ view, step = .observe view →
    (session.step step).1.answer = .value (view.value session.host) ∧
      (other.step step).1.answer = .value (view.value other.host)

theorem Setup.apply_between (h : residue.Between session.host other.host) (change : Setup) :
    ((Step.setup change).pass residue).Between (change.apply session.host)
      (change.apply other.host) := by
  cases change with
  | cycles value => exact { h with cycles := rfl }
  | clearCalls => exact { h with calls := Inset.between_empty [] }
  | forced result => exact { h with forced := rfl }
  | nextScript bytes => exact { h with nextScript := rfl }
  | vmVersion value => exact { h with vmVersion := rfl }
  | _ => exact { h with holdings := by simp only [Setup.apply, h.holdings] }

section Actions

open Program

variable {host host' : Host}

/-- An action sees nothing of a residue, unless it asks for the cycles and no result is forced. -/
theorem Action.run_agrees (h : residue.Between host host') {action : Action}
    (hmetered : action.Metered → host.forced ≠ none)
    (ho : (action.program.run host).outcome ≠ .error .cycleOverflow)
    (ho' : (action.program.run host').outcome ≠ .error .cycleOverflow) :
    (action.program.run host).Agrees residue (action.program.run host') := by
  have hquiet (hn : Call.currentCyclesNumber ∉ action.numbers) :
      (action.program.run host).Agrees residue (action.program.run host') :=
    action.program_makes.run_agrees hn h ho ho'
  have hsingle {call : Call} {next : Reply → Answer} (hcall : call.Metered → host.forced ≠ none)
      (ho : ((Program.call call fun reply => done (next reply)).run host).outcome ≠
        .error .cycleOverflow)
      (ho' : ((Program.call call fun reply => done (next reply)).run host').outcome ≠
        .error .cycleOverflow) :
      ((Program.call call fun reply => done (next reply)).run host).Agrees residue
        ((Program.call call fun reply => done (next reply)).run host') :=
    run_call_agrees h hcall (fun _ _ _ hbetween _ _ => ⟨rfl, rfl, hbetween⟩) ho ho'
  cases action with
  | currentCycles => exact hsingle (fun _ => hmetered True.intro) ho ho'
  | rawLoad => exact hsingle False.elim ho ho'
  | rawWords number operands =>
    by_cases hnumber : number = Call.currentCyclesNumber
    · subst hnumber
      exact hsingle (fun _ => hmetered rfl) ho ho'
    · apply hquiet
      rw [numbers, List.mem_singleton]
      exact Ne.symm hnumber
  | ask query | collect query | count query => exact hquiet query.resource.number_blind
  | loadInto target => exact hquiet target.resource.number_blind
  | _ =>
    apply hquiet
    rw [numbers]
    decide

theorem Action.exists_run_metered {action : Action} (hmetered : action.Metered) :
    ∃ operands, ∀ host : Host, host.forced = none →
      (action.program.run host).outcome ≠ .error .cycleOverflow →
      action.program.run host =
        ⟨.ok (.value (.word (UInt64.ofNat (host.cycles + 500)))),
          [.words Call.currentCyclesNumber operands],
          host.spend [.words Call.currentCyclesNumber operands]⟩ ∧
      host.cycles + 500 < UInt64.size := by
  let answer (count : UInt64) : Answer := .value (.word count)
  cases action with
  | currentCycles => exact ⟨{}, fun host hf ho => run_meter hf {} answer ho⟩
  | rawWords number operands =>
    cases hmetered
    exact ⟨operands, fun host hf ho => run_meter hf operands answer ho⟩
  | _ => cases hmetered

end Actions

theorem Agrees.of_eq (hrecord : (other.step step).1 = (session.step step).1)
    (hplain : step.Metered → session.host.forced ≠ none) (hview : ∀ view, step ≠ .observe view) :
    Agrees residue step session other where
  trace := congrArg Record.trace hrecord
  answer _ _ := congrArg Record.answer hrecord
  cycles hmetered hforced := absurd hforced (hplain hmetered)
  view view hstep := absurd hstep (hview view)

/-- Steps agree that ask for the cycles where no result is forced. -/
theorem perform_metered (h : Between residue session other) {action : Action}
    (hmetered : action.Metered) (hf : session.host.forced = none)
    (ho : (action.program.run session.host).outcome ≠ .error .cycleOverflow)
    (ho' : (action.program.run other.host).outcome ≠ .error .cycleOverflow) :
    Agrees residue (.perform action) session other ∧
      Between residue (session.perform action).2 (other.perform action).2 := by
  have hf' : other.host.forced = none := h.host.forced.trans hf
  obtain ⟨operands, hmeter⟩ := Action.exists_run_metered hmetered
  obtain ⟨hrun, hroom⟩ := hmeter session.host hf ho
  obtain ⟨hrun', hroom'⟩ := hmeter other.host hf' ho'
  constructor
  · refine ⟨?_, ?_, ?_, fun _ => Step.noConfusion⟩
    · simp only [step, perform, hrun, hrun']
    · intro hplain
      exact absurd hf (hplain hmetered)
    · intro _ _
      refine ⟨_, _, by simp only [step, perform, hrun]; rfl,
        by simp only [step, perform, hrun']; rfl, ?_⟩
      rw [UInt64.toNat_ofNat_of_lt' hroom, UInt64.toNat_ofNat_of_lt' hroom', h.host.cycles]
      omega
  · simp only [perform, hrun, hrun']
    refine ⟨{ h.host with calls := h.host.calls.append _, cycles := ?_ }, h.cursors⟩
    simp only [Host.spend, h.host.cycles]
    omega

theorem advance_fatal_iff (session : Session) (id : Nat) (cursor : Cursor) (move : Move)
    (reason : Fatal) :
    (session.advance id cursor move).1.answer = .fatal reason ↔
      ((move.program cursor).run session.host).outcome = .error reason := by
  rw [advance]
  cases ((move.program cursor).run session.host).outcome <;> simp [Answer.value]

/-- A walk sees nothing of a residue. -/
theorem advance_between (h : Between residue session other) (id : Nat) (cursor : Cursor)
    (move : Move)
    (ho : (session.advance id cursor move).1.answer ≠ .fatal .cycleOverflow)
    (ho' : (other.advance id cursor move).1.answer ≠ .fatal .cycleOverflow) :
    (other.advance id cursor move).1 = (session.advance id cursor move).1 ∧
      Between residue (session.advance id cursor move).2 (other.advance id cursor move).2 := by
  rw [ne_eq, advance_fatal_iff] at ho ho'
  have hblind := cursor.query.resource.number_blind
  have hagrees := (move.program_makes cursor).run_agrees hblind h.host ho ho'
  simp only [advance, hagrees.outcome, hagrees.trace, h.cursors]
  cases ((move.program cursor).run session.host).outcome with
  | error reason => exact ⟨rfl, hagrees.between, rfl⟩
  | ok value => exact ⟨rfl, hagrees.between, rfl⟩

/-- One step more leaves two sessions as far apart as they were, unless it sets the counter or
clears the log. -/
theorem step_between (h : Between residue session other)
    (ho : (session.step step).1.answer ≠ .fatal .cycleOverflow)
    (ho' : (other.step step).1.answer ≠ .fatal .cycleOverflow) :
    Agrees residue step session other ∧
      Between (step.pass residue) (session.step step).2 (other.step step).2 := by
  cases step with
  | setup change =>
    refine ⟨.of_eq rfl False.elim fun _ => Step.noConfusion, ?_⟩
    exact ⟨Setup.apply_between h.host change, h.cursors⟩
  | observe view =>
    refine ⟨⟨rfl, ?_, False.elim, ?_⟩, h⟩
    · intro _ hview
      exact absurd rfl (hview view)
    · intro view' hview
      cases hview
      exact ⟨rfl, rfl⟩
  | openCursor query source =>
    have hrecord : (other.step (.openCursor query source)).1 =
        (session.step (.openCursor query source)).1 := by
      simp only [Session.step, h.cursors]
    refine ⟨.of_eq hrecord False.elim fun _ => Step.noConfusion, h.host, ?_⟩
    simp only [Session.step, h.cursors]
  | perform action =>
    have hout : (action.program.run session.host).outcome ≠ .error .cycleOverflow :=
      fun hstop => ho ((session.perform_fatal_iff action .cycleOverflow).mpr hstop)
    have hout' : (action.program.run other.host).outcome ≠ .error .cycleOverflow :=
      fun hstop => ho' ((other.perform_fatal_iff action .cycleOverflow).mpr hstop)
    by_cases hmetered : action.Metered ∧ session.host.forced = none
    · exact perform_metered h hmetered.1 hmetered.2 hout hout'
    · have hplain : action.Metered → session.host.forced ≠ none :=
        fun hm hf => hmetered ⟨hm, hf⟩
      have hagrees := Action.run_agrees h.host hplain hout hout'
      have hrecord : (other.perform action).1 = (session.perform action).1 := by
        simp only [perform, hagrees.outcome, hagrees.trace]
      refine ⟨.of_eq hrecord hplain fun _ => Step.noConfusion, ?_⟩
      exact ⟨hagrees.between, h.cursors⟩
  | advance id move =>
    have hcursor' : other.cursor? id = session.cursor? id := by
      rw [cursor?, cursor?, h.cursors]
    cases hcursor : session.cursor? id with
    | none =>
      have hrecord : (other.step (.advance id move)).1 = (session.step (.advance id move)).1 := by
        simp only [Session.step, hcursor', hcursor]
      refine ⟨.of_eq hrecord False.elim fun _ => Step.noConfusion, ?_⟩
      simp only [Session.step, hcursor', hcursor]
      exact h
    | some cursor =>
      have hstep : session.step (.advance id move) = session.advance id cursor move := by
        simp only [Session.step, hcursor]
      have hstep' : other.step (.advance id move) = other.advance id cursor move := by
        simp only [Session.step, hcursor', hcursor]
      rw [hstep] at ho
      rw [hstep'] at ho'
      obtain ⟨hrecord, hbetween⟩ := advance_between h id cursor move ho ho'
      rw [← hstep, ← hstep'] at hrecord hbetween
      exact ⟨.of_eq hrecord False.elim fun _ => Step.noConfusion, hbetween⟩

theorem canPay_cons :
    session.CanPay (step :: steps) ↔
      (session.step step).1.answer ≠ .fatal .cycleOverflow ∧
        (session.step step).2.CanPay steps := by
  simp only [CanPay, run, List.forall_mem_cons]

theorem canPay_append {first rest : List Step} :
    session.CanPay (first ++ rest) ↔ session.CanPay first ∧ (session.run first).2.CanPay rest := by
  simp only [CanPay, run_append, List.forall_mem_append]

/-- Sessions that differ by a residue differ after the same steps by what is left of it. -/
theorem run_between (h : Between residue session other) (hp : session.CanPay steps)
    (hp' : other.CanPay steps) :
    Between (leftover residue steps) (session.run steps).2 (other.run steps).2 := by
  induction steps generalizing residue session other with
  | nil => exact h
  | cons step steps ih =>
    rw [canPay_cons] at hp hp'
    have hstep := (step_between h hp.1 hp'.1).2
    exact ih hstep hp.2 hp'.2

/-- The step runs a program or looks at the host. It neither changes the host from outside nor opens
or moves a walk. -/
def Step.Reads : Step → Prop
  | observe _ | perform _ => True
  | _ => False

/-- A step that reads leaves its mark, and what it has printed and requested. -/
theorem step_of_reads (hreads : step.Reads) (hf : session.host.forced = none)
    (hn : session.host.nextScript = none)
    (ho : (session.step step).1.answer ≠ .fatal .cycleOverflow) :
    ∃ messages execs, (session.step step).2 = { session with
      host := { session.host with
        calls := session.host.calls ++ (session.step step).1.trace.map Call.number
        cycles := session.host.cycles + 500 * (session.step step).1.trace.length
        messages := session.host.messages ++ messages
        execs := session.host.execs ++ execs } } := by
  have hs (change : Setup) : step ≠ .setup change := by
    rintro rfl
    exact hreads
  have hcursors : (session.step step).2.cursors = session.cursors := by
    cases step with
    | observe | perform => rfl
    | _ => cases hreads
  have hends := (session.programOf step).run_ends session.host
  obtain ⟨htrace, hfatal⟩ := session.step_follows step
  obtain ⟨charged, hcycles, -, -, hall⟩ := hends.exists_charged
  obtain ⟨messages, execs, hhost⟩ := (session.programOf step).run_appends hf hn
  have hcharged : charged = (session.step step).1.trace.length := by
    rw [htrace]
    apply hall
    intro hstop
    exact ho ((hfatal _).mpr hstop)
  rw [hends.calls_eq, hcycles, hcharged, ← htrace, ← session.step_host hs] at hhost
  refine ⟨messages, execs, ?_⟩
  rw [← hhost, ← hcursors]

/-- A step that reads does not interfere with the steps behind it. They make the same calls and give
the same answers whether it was taken or not, save that they can see the charge for its calls and
what it left in the logs, until the counter is set and the log is cleared. -/
theorem reads_do_not_interfere (start : Session) (first second : List Step) (hreads : step.Reads)
    (hf : (start.run first).2.host.forced = none)
    (hn : (start.run first).2.host.nextScript = none)
    (hp : start.CanPay (first ++ second)) (hp' : start.CanPay (first ++ step :: second)) :
    let before := (start.run first).2
    let record := (before.step step).1
    ∃ messages execs,
      (before.step step).2 = { before with
        host := { before.host with
          calls := before.host.calls ++ record.trace.map Call.number
          cycles := before.host.cycles + 500 * record.trace.length
          messages := before.host.messages ++ messages
          execs := before.host.execs ++ execs } } ∧
      let residue : Residue := {
        calls := ⟨before.host.calls, record.trace.map Call.number⟩
        cycles := 500 * record.trace.length
        messages := ⟨before.host.messages, messages⟩
        execs := ⟨before.host.execs, execs⟩ }
      ∀ earlier later, second = earlier ++ later →
        let session := (start.run (first ++ earlier)).2
        let other := (start.run (first ++ step :: earlier)).2
        Between (leftover residue earlier) session other ∧
          ∀ next rest, later = next :: rest →
            Agrees (leftover residue earlier) next session other := by
  intro before record
  have hpay := (canPay_append.mp hp).2
  have hpay' := (canPay_append.mp hp').2
  rw [canPay_cons] at hpay'
  obtain ⟨messages, execs, hafter⟩ := step_of_reads hreads hf hn hpay'.1
  refine ⟨messages, execs, hafter, ?_⟩
  intro residue earlier later hsecond session other
  have hbetween : Between residue before (before.step step).2 := by
    rw [hafter]
    exact {
      host := {
        holdings := rfl
        vmVersion := rfl
        forced := rfl
        nextScript := rfl
        calls := Inset.between_append _ _
        cycles := rfl
        messages := Inset.between_append _ _
        execs := Inset.between_append _ _ }
      cursors := rfl }
  have hsession : session = (before.run earlier).2 := by
    simp only [session, run_append]
    rfl
  have hother : other = ((before.step step).2.run earlier).2 := by
    simp only [other, run_append]
    rfl
  subst hsecond
  obtain ⟨hearlier, hlater⟩ := canPay_append.mp hpay
  obtain ⟨hearlier', hlater'⟩ := canPay_append.mp hpay'.2
  have hrun := run_between hbetween hearlier hearlier'
  rw [← hsession] at hlater hrun
  rw [← hother] at hlater' hrun
  refine ⟨hrun, ?_⟩
  intro next rest hnext
  subst hnext
  exact (step_between hrun (canPay_cons.mp hlater).1 (canPay_cons.mp hlater').1).1

/-- A panic in the middle of a session is seen in the count of the cycles, which is larger by the
charges for its two calls. -/
theorem reads_do_not_interfere_panic :
    let first : List Step := [.perform (.ask .cellCapacity 0 .input)]
    let step : Step := .perform (.panic "x")
    let meter : Step := .perform .currentCycles
    let session := (({} : Session).run first).2
    let other := (({} : Session).run (first ++ [step])).2
    (step.Reads ∧ session.host.forced = none ∧ session.host.nextScript = none ∧
      ({} : Session).CanPay (first ++ [meter]) ∧ ({} : Session).CanPay (first ++ [step, meter])) ∧
      ∃ count count', (session.step meter).1.answer = .value (.word count) ∧
        (other.step meter).1.answer = .value (.word count') ∧
        count'.toNat = count.toNat + 1000 := by
  intro first step meter session other
  have hrecords : (({} : Session).run (first ++ [meter])).1 = [
      ⟨.refused .itemMissing {}, [.ofTarget (.cellField 0 .input .capacity) 8 0]⟩,
      ⟨.value (.word 1000), [.words 2042 {}]⟩] := rfl
  have hrecords' : (({} : Session).run (first ++ [step, meter])).1 = [
      ⟨.refused .itemMissing {}, [.ofTarget (.cellField 0 .input .capacity) 8 0]⟩,
      ⟨.fatal (.exited (-1)), [.debug (Program.messageBytes "x"), Program.exitCall (-1)]⟩,
      ⟨.value (.word 2000), [.words 2042 {}]⟩] := rfl
  have hp : ({} : Session).CanPay (first ++ [meter]) := by
    rw [CanPay, hrecords]
    simp [Answer.value]
  have hp' : ({} : Session).CanPay (first ++ [step, meter]) := by
    rw [CanPay, hrecords']
    simp [Answer.value]
  have hreads : step.Reads := True.intro
  obtain ⟨messages, execs, -, hrest⟩ :=
    reads_do_not_interfere {} first [meter] hreads rfl rfl hp hp'
  have hmeter := (hrest [] [meter] rfl).2 meter [] rfl
  have hcalls : (session.step step).1.trace.length = 2 := by decide +kernel
  obtain ⟨count, count', hanswer, hanswer', hshift⟩ := hmeter.cycles True.intro rfl
  change count'.toNat = count.toNat + 500 * (session.step step).1.trace.length at hshift
  rw [hcalls] at hshift
  exact ⟨⟨hreads, rfl, rfl, hp, hp'⟩, count, count', hanswer, hanswer', hshift⟩

end Session

end ScriptHost
