import Mathlib.Algebra.Group.Nat.Defs
import Mathlib.Tactic.ByContra
import ScriptHost.Control

/-! Programs that only read. Such a program leaves its mark on a host in the log and the counter
alone, so what it does is fixed by the host once and for all, however many reads came before. -/

namespace ScriptHost

namespace Host

/-- The host after calls that left their mark in the log and the counter alone. -/
def spend (host : Host) (calls : List Call) : Host :=
  { host with
    calls := host.calls ++ calls.map Call.number
    cycles := host.cycles + cyclesPerCall * calls.length }

/-- The counter has room for the charges of `count` calls. -/
def Affords (host : Host) (count : Nat) : Prop :=
  cyclesPerCall * count ≤ 2 ^ 64 - 1 - host.cycles

instance (host : Host) (count : Nat) : Decidable (host.Affords count) :=
  inferInstanceAs (Decidable (_ ≤ _))

@[simp] theorem spend_forced (host : Host) (calls : List Call) :
    (host.spend calls).forced = host.forced := rfl

@[simp] theorem spend_holdings (host : Host) (calls : List Call) :
    (host.spend calls).holdings = host.holdings := rfl

@[simp] theorem spend_nil (host : Host) : host.spend [] = host := by
  simp [spend]

theorem spend_append (host : Host) (first rest : List Call) :
    host.spend (first ++ rest) = (host.spend first).spend rest := by
  simp only [spend, List.map_append, List.length_append, List.append_assoc, Nat.mul_add,
    Nat.add_assoc]

theorem affords_zero (host : Host) : host.Affords 0 :=
  Nat.zero_le _

theorem affords_one_iff (host : Host) : host.Affords 1 ↔ host.cycles ≤ payable := by
  rw [le_payable_iff]
  simp only [Affords, cyclesPerCall, UInt64.size]
  omega

theorem affords_append_iff (host : Host) (first : List Call) (count : Nat) :
    host.Affords (first.length + count) ↔
      host.Affords first.length ∧ (host.spend first).Affords count := by
  simp only [Affords, spend, cyclesPerCall]
  omega

theorem Affords.mono {host : Host} {fewer more : Nat} (ha : host.Affords more)
    (h : fewer ≤ more) : host.Affords fewer :=
  Nat.le_trans (Nat.mul_le_mul_left _ h) ha

end Host

namespace Program

variable {α β : Type}

theorem run_request {host : Host} (hf : host.forced = none) (ha : host.Affords 1) (call : Call) :
    (request call).run host =
      ⟨((host.spend [call]).serve call).1, [call], ((host.spend [call]).serve call).2⟩ := by
  have hanswer : host.answer call = (host.spend [call]).serve call :=
    Host.answer_of_served ((Host.affords_one_iff host).mp ha) hf call
  rw [request, run, hanswer]
  rcases (host.spend [call]).serve call with ⟨fatal | reply, left⟩ <;> rfl

theorem run_request_of_not_affords {host : Host} (ha : ¬ host.Affords 1) (call : Call) :
    (request call).run host = ⟨.error .cycleOverflow, [call], host.note call.number⟩ := by
  have hcycles : ¬ host.cycles ≤ Host.payable := by
    intro h
    exact ha ((Host.affords_one_iff host).mpr h)
  rw [request, run, Host.answer_of_overflow hcycles]

/-- Whatever reads were charged to the host before, the program makes the calls of `trace`, leaves
its mark in log and counter alone, and ends with `outcome`. Without room for all its charges it
overflows. -/
structure Yields (program : Program α) (host : Host) (outcome : Except Fatal α)
    (trace : List Call) : Prop where
  run_eq : ∀ earlier, (host.spend earlier).Affords trace.length →
    program.run (host.spend earlier) = ⟨outcome, trace, host.spend (earlier ++ trace)⟩
  overflows : ∀ earlier, ¬ (host.spend earlier).Affords trace.length →
    (program.run (host.spend earlier)).outcome = .error .cycleOverflow

namespace Yields

variable {program : Program α} {next : α → Program β} {host : Host} {value : α} {fatal : Fatal}
  {outcome : Except Fatal α} {last : Except Fatal β} {trace rest : List Call}

theorem run_host (h : program.Yields host outcome trace) (ha : host.Affords trace.length) :
    program.run host = ⟨outcome, trace, host.spend trace⟩ := by
  have hnone : (host.spend []).Affords trace.length := by rwa [Host.spend_nil]
  have hrun := h.run_eq [] hnone
  rwa [Host.spend_nil, List.nil_append] at hrun

/-- Whether a program overflows is fixed by the room for its charges alone. -/
theorem outcome_run (h : program.Yields host outcome trace) :
    (program.run host).outcome =
      if host.Affords trace.length then outcome else .error .cycleOverflow := by
  split
  · next ha => rw [h.run_host ha]
  · next ha =>
    have hnone : ¬ (host.spend []).Affords trace.length := by rwa [Host.spend_nil]
    have hover := h.overflows [] hnone
    rwa [Host.spend_nil] at hover

theorem affords (h : program.Yields host outcome trace)
    (hc : (program.run host).outcome ≠ .error .cycleOverflow) : host.Affords trace.length := by
  by_contra ha
  rw [h.outcome_run, if_neg ha] at hc
  exact hc rfl

/-- What a program yields on a host it yields after any reads. -/
theorem spend (h : program.Yields host outcome trace) (before : List Call) :
    program.Yields (host.spend before) outcome trace where
  run_eq earlier ha := by
    rw [← Host.spend_append] at ha ⊢
    rw [h.run_eq _ ha, List.append_assoc, Host.spend_append]
  overflows earlier ha := by
    rw [← Host.spend_append] at ha ⊢
    exact h.overflows _ ha

theorem done (value : α) (host : Host) : (Program.done value).Yields host (.ok value) [] where
  run_eq earlier _ := by
    rw [List.append_nil]
    rfl
  overflows earlier ha := absurd (Host.affords_zero _) ha

theorem bind (h : program.Yields host (.ok value) trace) (hn : (next value).Yields host last rest) :
    (program.bind next).Yields host last (trace ++ rest) where
  run_eq earlier ha := by
    rw [List.length_append, Host.affords_append_iff, ← Host.spend_append] at ha
    obtain ⟨hfirst, hrest⟩ := ha
    have hnext := hn.run_eq (earlier ++ trace) hrest
    rw [run_bind, h.run_eq earlier hfirst]
    simp only [Run.andThen, hnext, List.append_assoc]
  overflows earlier ha := by
    rw [List.length_append, Host.affords_append_iff, ← Host.spend_append] at ha
    rw [run_bind]
    by_cases hfirst : (host.spend earlier).Affords trace.length
    · rw [h.run_eq earlier hfirst]
      apply hn.overflows
      intro hrest
      exact ha ⟨hfirst, hrest⟩
    · simp only [Run.andThen, h.overflows earlier hfirst]

theorem bind_fatal (h : program.Yields host (.error fatal) trace) (next : α → Program β) :
    (program.bind next).Yields host (.error fatal) trace where
  run_eq earlier ha := by
    rw [run_bind, h.run_eq earlier ha]
    rfl
  overflows earlier ha := by
    rw [run_bind, Run.andThen, h.overflows earlier ha]

theorem map (h : program.Yields host outcome trace) (f : α → β) :
    (program.bind fun value => Program.done (f value)).Yields host (outcome.map f) trace := by
  cases outcome with
  | error fatal => exact h.bind_fatal _
  | ok value =>
    have hmap : (program.bind fun value => Program.done (f value)).Yields host (.ok (f value))
        (trace ++ []) := h.bind (done (f value) host)
    rwa [List.append_nil] at hmap

/-- A single call that the host serves in one way, whatever was charged before. -/
theorem request (hf : host.forced = none) {call : Call} {reply : Except Fatal Reply}
    (hs : ∀ spent, (host.spend spent).serve call = (reply, host.spend spent)) :
    (Program.request call).Yields host reply [call] where
  run_eq earlier ha := by
    have hearlier : (host.spend earlier).forced = none := hf
    rw [run_request hearlier ha, ← Host.spend_append, hs]
  overflows earlier ha := by
    rw [run_request_of_not_affords ha]

end Yields

theorem exit_code_of_operand (code : Int8) : code.toInt64.toUInt64.toUInt8.toInt8 = code := by
  apply Int8.toBitVec_inj.mp
  have h : (code.toBitVec.signExtend 64).signExtend 8 = code.toBitVec :=
    congrArg Int8.toBitVec (Int8.toInt8_toInt64 code)
  rw [BitVec.signExtend_eq_setWidth_of_le _ (by decide)] at h
  simpa using h

/-- The call that ends a program with a code. -/
def exitCall (code : Int8) : Call :=
  .words Call.exitNumber { a0 := code.toInt64.toUInt64 }

theorem exit_yields {host : Host} (hf : host.forced = none) (code : Int8) :
    (exit code : Program α).Yields host (.error (.exited code)) [exitCall code] := by
  have hs (spent : List Call) : (host.spend spent).serve (exitCall code) =
      (.error (.exited code), host.spend spent) := by
    simp only [exitCall, Host.serve, Host.serveWords, exit_code_of_operand]
    rfl
  exact (Yields.request hf hs).bind_fatal _

theorem abort_yields {host : Host} (hf : host.forced = none) :
    (abort : Program α).Yields host (.error (.exited abortCode)) [exitCall abortCode] :=
  exit_yields hf abortCode

theorem message_abort : (Fatal.exited abortCode).message = "Mocked exit called with code -2" := by
  decide +kernel

@[simp] theorem check_success : check 0 = pure (.ok ()) := rfl

@[simp] theorem check_code (error : HostError) : check error.code = pure (.error error) := by
  cases error <;> rfl

end Program

end ScriptHost
