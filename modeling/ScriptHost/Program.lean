import ScriptHost.Host.Serve

/-!
Programs that make calls, as trees: a program is finished, waits for ever, or makes a call and goes
on with the reply. Running one against a host gives its outcome, the calls it made, and the host as
it is left.
-/

namespace ScriptHost

/-- A program that makes calls and yields an `α`. -/
inductive Program (α : Type) where
  | done (value : α)
  /-- Waits for ever. -/
  | spin
  | call (request : Call) (next : Reply → Program α)

/-- A finished run. -/
structure Run (α : Type) where
  outcome : Except Fatal α
  /-- The calls made, oldest first. -/
  trace : List Call
  host : Host

namespace Run

variable {α β : Type}

/-- The same run with a call made before it. -/
def precededBy (run : Run α) (request : Call) : Run α :=
  { run with trace := request :: run.trace }

/-- A run that goes on with what its value chooses, unless it has stopped for good. -/
def andThen (run : Run α) (next : α → Host → Run β) : Run β :=
  match run.outcome with
  | .ok value =>
    let rest := next value run.host
    { rest with trace := run.trace ++ rest.trace }
  | .error fatal => ⟨.error fatal, run.trace, run.host⟩

theorem precededBy_andThen (run : Run α) (request : Call) (next : α → Host → Run β) :
    (run.precededBy request).andThen next = (run.andThen next).precededBy request := by
  rcases run with ⟨fatal | value, trace, host⟩ <;> rfl

end Run

namespace Program

variable {α β γ : Type}

/-- Runs a program and then what its value chooses. -/
def bind : Program α → (α → Program β) → Program β
  | done value, next => next value
  | spin, _ => spin
  | call request rest, next => call request fun reply => (rest reply).bind next

instance : Monad Program where
  pure := done
  bind := bind

/-- Makes one call and yields the reply. -/
def request (call : Call) : Program Reply :=
  .call call done

/-- Runs a program against a host. A call that does not come back ends the run. -/
def run : Program α → Host → Run α
  | done value, host => ⟨.ok value, [], host⟩
  | spin, host => ⟨.error .exitReturned, [], host⟩
  | call request next, host =>
    match host.answer request with
    | (.ok reply, left) => ((next reply).run left).precededBy request
    | (.error fatal, left) => ⟨.error fatal, [request], left⟩

theorem pure_eq (value : α) : (pure value : Program α) = done value := rfl

theorem bind_eq (program : Program α) (next : α → Program β) :
    program >>= next = program.bind next := rfl

theorem bind_assoc (program : Program α) (first : α → Program β) (second : β → Program γ) :
    (program.bind first).bind second = program.bind fun value => (first value).bind second := by
  induction program with
  | done value => rfl
  | spin => rfl
  | call request next ih =>
    simp only [bind]
    congr 1
    funext reply
    exact ih reply

/-- The run of a sequence is the run of its first part, followed by that of its second. -/
theorem run_bind (program : Program α) (next : α → Program β) (host : Host) :
    (program.bind next).run host = (program.run host).andThen fun value => (next value).run := by
  induction program generalizing host with
  | done value => rfl
  | spin => rfl
  | call request rest ih =>
    rw [bind, run, run]
    rcases host.answer request with ⟨fatal | reply, left⟩
    · rfl
    · rw [Run.precededBy_andThen, ← ih]

end Program

end ScriptHost
