import Mathlib.Tactic.SplitIfs
import ScriptHost.Proofs.Yields

/-! Runs as exchanges of calls and replies. Whatever a program is, the host gives a reply to every
call of a run but the last, and the last may stop the program for good. -/

namespace ScriptHost

namespace Host

variable {host left : Host} {call : Call} {reply : Reply} {fatal : Fatal}

theorem payable_iff (cycles : Nat) : cycles ≤ payable ↔ cycles + 500 ≤ 2 ^ 64 - 1 := by
  rw [le_payable_iff]
  simp only [UInt64.size]
  omega

theorem afterLoad_frame (host : Host) (resource : Resource) :
    ∃ script nextScript, host.afterLoad resource =
      { host with
        holdings := { host.holdings with script := script }
        nextScript := nextScript } := by
  cases hn : host.nextScript with
  | none =>
    rw [afterLoad_of_none hn]
    exact ⟨host.holdings.script, host.nextScript, rfl⟩
  | some script =>
    cases resource with
    | script =>
      refine ⟨script, none, ?_⟩
      simp only [afterLoad, hn]
    | _ => exact ⟨host.holdings.script, host.nextScript, rfl⟩

/-- To serve a call changes at most the script in force, the messages and the requests to replace
the program. -/
theorem serve_frame (host : Host) (call : Call) :
    ∃ script nextScript messages execs, (host.serve call).2 =
      { host with
        holdings := { host.holdings with script := script }
        nextScript := nextScript
        messages := messages
        execs := execs } := by
  have hsame : ∃ script nextScript messages execs, host =
      { host with
        holdings := { host.holdings with script := script }
        nextScript := nextScript
        messages := messages
        execs := execs } :=
    ⟨host.holdings.script, host.nextScript, host.messages, host.execs, rfl⟩
  cases call with
  | load number capacity offset index source field =>
    simp only [serve]
    split
    · next resource _ =>
      simp only [serveLoad]
      split
      · obtain ⟨script, nextScript, h⟩ := host.afterLoad_frame resource
        exact ⟨script, nextScript, host.messages, host.execs, h⟩
      · exact hsame
    · exact hsame
  | loadCode | words => exact hsame
  | exec | debug => exact ⟨host.holdings.script, host.nextScript, _, _, rfl⟩

theorem serveExec_fatal {index source place bounds : UInt64} {arguments : List Bytes}
    (h : (host.serveExec index source place bounds arguments).1 = .error fatal) :
    fatal = .replaced := by
  simp only [serveExec] at h
  split at h
  · cases h
  · split at h
    · cases h
      rfl
    · cases h

theorem serve_fatal_cases (h : (host.serve call).1 = .error fatal) :
    (∃ code, fatal = .exited code) ∨ fatal = .replaced ∨
      ∃ number, fatal = .unknownNumber number := by
  cases call with
  | load number capacity offset index source field =>
    simp only [serve] at h
    split at h
    · cases h
    · cases h
      exact Or.inr (Or.inr ⟨number, rfl⟩)
  | loadCode | debug => cases h
  | exec index source place bounds arguments => exact Or.inr (Or.inl (serveExec_fatal h))
  | words number operands =>
    simp only [serve, serveWords] at h
    split_ifs at h
    · cases h
      exact Or.inl ⟨_, rfl⟩
    · cases h
      exact Or.inr (Or.inr ⟨number, rfl⟩)

/-- What a call leaves on the host that can charge it: its mark in the log and the counter, no
forced result, and what the service may change. -/
theorem answer_frame (h : host.cycles ≤ payable) (call : Call) :
    ∃ script nextScript messages execs, (host.answer call).2 =
      { host.spend [call] with
        holdings := { host.holdings with script := script }
        nextScript := nextScript
        messages := messages
        execs := execs
        forced := none } := by
  cases hf : host.forced with
  | some result =>
    rw [answer_of_forced h hf]
    exact ⟨host.holdings.script, host.nextScript, host.messages, host.execs, rfl⟩
  | none =>
    obtain ⟨script, nextScript, messages, execs, hserve⟩ := (host.spend [call]).serve_frame call
    have hanswer : host.answer call = (host.spend [call]).serve call := answer_of_served h hf call
    refine ⟨script, nextScript, messages, execs, ?_⟩
    rw [hanswer, hserve]
    simp only [spend_holdings, spend_forced, hf]

theorem answer_holdings (host : Host) (call : Call) :
    ∃ script, (host.answer call).2.holdings = { host.holdings with script := script } := by
  by_cases h : host.cycles ≤ payable
  · obtain ⟨script, nextScript, messages, execs, hanswer⟩ := answer_frame h call
    exact ⟨script, congrArg Host.holdings hanswer⟩
  · rw [answer_of_overflow h]
    exact ⟨host.holdings.script, rfl⟩

theorem answer_calls (host : Host) (call : Call) :
    (host.answer call).2.calls = host.calls ++ [call.number] := by
  by_cases h : host.cycles ≤ payable
  · obtain ⟨script, nextScript, messages, execs, hanswer⟩ := answer_frame h call
    rw [hanswer]
    rfl
  · rw [answer_of_overflow h]
    rfl

theorem answer_overflow_iff :
    (host.answer call).1 = .error .cycleOverflow ↔ ¬ host.cycles ≤ payable := by
  constructor
  · intro hover h
    cases hf : host.forced with
    | some result =>
      rw [answer_of_forced h hf] at hover
      cases hover
    | none =>
      rw [answer_of_served h hf] at hover
      rcases serve_fatal_cases hover with ⟨_, hfatal⟩ | hfatal | ⟨_, hfatal⟩ <;> cases hfatal
  · intro h
    rw [answer_of_overflow h]

theorem answer_of_reply (h : host.answer call = (.ok reply, left)) :
    host.cycles ≤ payable ∧ left.calls = host.calls ++ [call.number] ∧
      left.cycles = host.cycles + cyclesPerCall ∧ left.forced = none := by
  have hroom : host.cycles ≤ payable := by
    by_contra hn
    rw [answer_of_overflow hn] at h
    cases h
  obtain ⟨script, nextScript, messages, execs, hanswer⟩ := answer_frame hroom call
  rw [h] at hanswer
  dsimp only at hanswer
  subst hanswer
  exact ⟨hroom, rfl, rfl, rfl⟩

theorem answer_of_cycleOverflow (h : host.answer call = (.error .cycleOverflow, left)) :
    ¬ host.cycles ≤ payable ∧ left = host.note call.number := by
  have hover : ¬ host.cycles ≤ payable := answer_overflow_iff.mp (congrArg Prod.fst h)
  rw [answer_of_overflow hover] at h
  exact ⟨hover, (congrArg Prod.snd h).symm⟩

/-- A call that stops the program for another reason has been charged all the same. -/
theorem answer_of_fatal (h : host.answer call = (.error fatal, left))
    (hf : fatal ≠ .cycleOverflow) :
    host.cycles ≤ payable ∧ left.cycles = host.cycles + cyclesPerCall := by
  have hroom : host.cycles ≤ payable := by
    by_contra hn
    rw [answer_of_overflow hn] at h
    cases h
    exact hf rfl
  obtain ⟨script, nextScript, messages, execs, hanswer⟩ := answer_frame hroom call
  rw [h] at hanswer
  exact ⟨hroom, congrArg Host.cycles hanswer⟩

/-- The host answers calls one after another, each of them with a reply. -/
inductive Replies : Host → List Call → Host → Prop where
  | nil (host : Host) : Replies host [] host
  | cons {host middle left : Host} {call : Call} {reply : Reply} {rest : List Call}
      (hcall : host.answer call = (.ok reply, middle)) (hrest : Replies middle rest left) :
      Replies host (call :: rest) left

namespace Replies

variable {trace : List Call}

theorem calls_eq (h : host.Replies trace left) :
    left.calls = host.calls ++ trace.map Call.number := by
  induction h with
  | nil host => rw [List.map_nil, List.append_nil]
  | cons hcall hrest ih =>
    rw [ih, (answer_of_reply hcall).2.1, List.map_cons, List.append_assoc, List.singleton_append]

theorem cycles_eq (h : host.Replies trace left) :
    left.cycles = host.cycles + cyclesPerCall * trace.length := by
  induction h with
  | nil host => rfl
  | cons hcall hrest ih =>
    rw [ih, (answer_of_reply hcall).2.2.1, List.length_cons]
    simp only [cyclesPerCall]
    omega

/-- Calls that get replies have been charged, so that the counter still holds a word. -/
theorem cycles_le (h : host.Replies trace left) (hc : host.cycles ≤ 2 ^ 64 - 1) :
    left.cycles ≤ 2 ^ 64 - 1 := by
  induction h with
  | nil host => exact hc
  | cons hcall hrest ih =>
    obtain ⟨hroom, _, hcycles, _⟩ := answer_of_reply hcall
    apply ih
    rw [hcycles]
    exact (payable_iff _).mp hroom

theorem forced_eq_none (h : host.Replies trace left) (hn : host.forced = none ∨ trace ≠ []) :
    left.forced = none := by
  induction h with
  | nil host =>
    rcases hn with hf | hne
    · exact hf
    · exact absurd rfl hne
  | cons hcall hrest ih =>
    exact ih (Or.inl (answer_of_reply hcall).2.2.2)

end Replies

end Host

namespace Run

variable {α : Type} {host middle : Host} {call : Call} {reply : Reply} {run : Run α}

/-- How a run comes to its end: with a value, waiting for ever, or stopped by its last call. -/
inductive Ends (host : Host) : Run α → Prop where
  | finished {value : α} {trace : List Call} {left : Host} (hreplies : host.Replies trace left) :
      Ends host ⟨.ok value, trace, left⟩
  | waiting {trace : List Call} {left : Host} (hreplies : host.Replies trace left) :
      Ends host ⟨.error .exitReturned, trace, left⟩
  | stopped {earlier : List Call} {last : Call} {middle left : Host} {fatal : Fatal}
      (hreplies : host.Replies earlier middle) (hlast : middle.answer last = (.error fatal, left)) :
      Ends host ⟨.error fatal, earlier ++ [last], left⟩

theorem Ends.precededBy (hcall : host.answer call = (.ok reply, middle)) (h : run.Ends middle) :
    (run.precededBy call).Ends host := by
  cases h with
  | finished hreplies => exact .finished (.cons hcall hreplies)
  | waiting hreplies => exact .waiting (.cons hcall hreplies)
  | stopped hreplies hlast => exact .stopped (.cons hcall hreplies) hlast

end Run

namespace Program

variable {α : Type}

theorem run_call_of_reply {host left : Host} {request : Call} {next : Reply → Program α}
    {reply : Reply} (hanswer : host.answer request = (.ok reply, left)) :
    (call request next).run host = ((next reply).run left).precededBy request := by
  simp only [run, hanswer]

theorem run_call_of_fatal {host left : Host} {request : Call} {next : Reply → Program α}
    {fatal : Fatal} (hanswer : host.answer request = (.error fatal, left)) :
    (call request next).run host = ⟨.error fatal, [request], left⟩ := by
  simp only [run, hanswer]

theorem run_ends (program : Program α) (host : Host) : (program.run host).Ends host := by
  -- The host is not fixed, since every reply hands another one to the rest of the program.
  induction program generalizing host with
  | done value => exact .finished (.nil host)
  | spin => exact .waiting (.nil host)
  | call request next ih =>
    rw [run]
    cases hanswer : host.answer request with
    | mk answer left =>
      cases answer with
      | error fatal => exact .stopped (.nil host) hanswer
      | ok reply => exact (ih reply left).precededBy hanswer

/-- What every single call preserves is preserved by a run. -/
theorem run_preserves {P : Host → Prop} (hcall : ∀ host call, P host → P (host.answer call).2)
    (program : Program α) {host : Host} (h : P host) : P (program.run host).host := by
  induction program generalizing host with
  | done value => exact h
  | spin => exact h
  | call request next ih =>
    have hleft := hcall host request h
    rw [run]
    cases hanswer : host.answer request with
    | mk answer left =>
      rw [hanswer] at hleft
      cases answer with
      | error fatal => exact hleft
      | ok reply => exact ih reply hleft

/-- No run changes what a host holds, the script apart. -/
theorem run_holdings (program : Program α) (host : Host) :
    ∃ script, (program.run host).host.holdings = { host.holdings with script := script } := by
  apply run_preserves (P := fun left =>
    ∃ script, left.holdings = { host.holdings with script := script })
  · intro before call h
    obtain ⟨earlier, hearlier⟩ := h
    obtain ⟨script, hscript⟩ := before.answer_holdings call
    rw [hearlier] at hscript
    exact ⟨script, hscript⟩
  · exact ⟨host.holdings.script, rfl⟩

end Program

end ScriptHost
