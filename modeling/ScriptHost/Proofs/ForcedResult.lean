import ScriptHost.Proofs.Stepping
import ScriptHost.Proofs.WholeLoad

/-! Forced results. A word that answers the first call of a program is taken for success only if it
is zero, for a refusal only if it is the code of one, and else for a fault of the host. -/

namespace ScriptHost

/-- The host with its forced result used up. -/
def Host.relieved (host : Host) : Host :=
  { host with forced := none }

theorem HostError.code_lt (error : HostError) : error.code < 5 := by
  cases error <;> decide

theorem Status.ofWord_of_five_le {word : UInt64} (h : 5 ≤ word) : ofWord word = .unknown := by
  have hzero : word ≠ 0 := by
    rintro rfl
    exact absurd h (by decide)
  have hnone : HostError.all.find? (·.code = word) = none := by
    rw [List.find?_eq_none]
    intro error _ hcode
    have hword : error.code = word := of_decide_eq_true hcode
    exact absurd error.code_lt (by rw [hword]; exact UInt64.not_lt.mpr h)
  rw [ofWord, if_neg hzero, hnone]

theorem Status.word_cases (word : UInt64) :
    word = 0 ∨ (∃ error : HostError, word = error.code) ∨ 5 ≤ word := by
  by_cases hlarge : 5 ≤ word
  · exact Or.inr (Or.inr hlarge)
  · have hlt : word.toNat < 5 := by
      have hword : word < 5 := UInt64.not_le.mp hlarge
      exact UInt64.lt_iff_toNat_lt.mp hword
    have heq (code : UInt64) (hcode : word.toNat = code.toNat) : word = code :=
      UInt64.toNat_inj.mp hcode
    obtain h | h | h | h | h : word.toNat = 0 ∨ word.toNat = 1 ∨ word.toNat = 2 ∨
        word.toNat = 3 ∨ word.toNat = 4 := by omega
    · exact Or.inl (heq 0 h)
    · exact Or.inr (Or.inl ⟨.indexOutOfBound, heq 1 h⟩)
    · exact Or.inr (Or.inl ⟨.itemMissing, heq 2 h⟩)
    · exact Or.inr (Or.inl ⟨.sliceOutOfBound, heq 3 h⟩)
    · exact Or.inr (Or.inl ⟨.wrongFormat, heq 4 h⟩)

namespace Program

variable {α β : Type} {program : Program α} {next : α → Program β} {host : Host} {value : α}
  {fatal : Fatal} {outcome : Except Fatal α} {last : Except Fatal β} {call : Call} {word : UInt64}

/-- The calls behind the first of a program that aborts, or else is done. -/
def abortCalls : Except Fatal α → List Call
  | .ok _ => []
  | .error _ => [exitCall abortCode]

/-- The forced result answers the first call of a program, which then ends with `outcome` and makes
no other call unless it aborts. The host keeps nothing but the mark of these calls. -/
def Forces (program : Program α) (host : Host) (call : Call) (outcome : Except Fatal α) : Prop :=
  host.Affords 2 → program.run host =
    ⟨outcome, call :: abortCalls outcome, host.relieved.spend (call :: abortCalls outcome)⟩

theorem Forces.bind (h : program.Forces host call (.ok value))
    (hn : (next value).Yields host.relieved last (abortCalls last)) :
    (program.bind next).Forces host call last := by
  intro ha
  have hroom : (host.relieved.spend [call]).Affords 1 :=
    ((host.relieved.affords_append_iff [call] 1).mp ha).2
  have hlength : (abortCalls last).length ≤ 1 := by
    cases last with
    | ok _ => exact Nat.zero_le 1
    | error _ => exact Nat.le_refl 1
  have hnext := hn.run_eq [call] (hroom.mono hlength)
  rw [run_bind, h ha]
  simp only [Run.andThen, abortCalls, hnext, List.cons_append, List.nil_append]

theorem Forces.bind_fatal (h : program.Forces host call (.error fatal)) (next : α → Program β) :
    (program.bind next).Forces host call (.error fatal) := by
  intro ha
  rw [run_bind, h ha]
  rfl

theorem Forces.map (h : program.Forces host call outcome) (f : α → β) :
    (program.bind fun value => .done (f value)).Forces host call (outcome.map f) := by
  cases outcome with
  | error fatal => exact h.bind_fatal _
  | ok value =>
    apply Forces.bind h
    exact .done (f value) host.relieved

theorem request_forces (hf : host.forced = some word) (call : Call) :
    (request call).Forces host call (.ok { result := word }) := by
  intro ha
  have hone : host.Affords 1 := ha.mono (Nat.le_succ 1)
  have hroom : host.cycles ≤ Host.payable := (Host.affords_one_iff host).mp hone
  rw [request, run, Host.answer_of_forced hroom hf]
  rfl

/-- What becomes of a program that decodes a result word. -/
def decoded (status : Status) (value : α) (refusal : HostError → α) : Except Fatal α :=
  match status with
  | .success => .ok value
  | .refused error => .ok (refusal error)
  | .unknown => .error (.exited abortCode)

theorem map_decoded (f : α → β) (status : Status) (value : α) (refusal : HostError → α) :
    (decoded status value refusal).map f =
      decoded status (f value) fun error => f (refusal error) := by
  cases status <;> rfl

theorem check_yields (hf : host.forced = none) (word : UInt64) (f : Except HostError Unit → β) :
    ((check word).bind fun status => .done (f status)).Yields host
      (decoded (.ofWord word) (f (.ok ())) fun error => f (.error error))
      (abortCalls (decoded (.ofWord word) (f (.ok ())) fun error => f (.error error))) := by
  rw [check]
  cases Status.ofWord word with
  | success => exact .done _ host
  | refused error => exact .done _ host
  | unknown => exact (abort_yields hf).bind_fatal _

theorem Forces.bind_decoded {status : Status} {refusal : HostError → α} {value' : β}
    {refusal' : HostError → β} (h : program.Forces host call (decoded status value refusal))
    (hvalue : next value = .done value')
    (hrefusal : ∀ error, next (refusal error) = .done (refusal' error)) :
    (program.bind next).Forces host call (decoded status value' refusal') := by
  cases status with
  | success =>
    apply Forces.bind h
    rw [hvalue]
    exact .done value' _
  | refused error =>
    apply Forces.bind h
    rw [hrefusal]
    exact .done (refusal' error) _
  | unknown => exact Forces.bind_fatal h next

theorem loadWords_forces (hf : host.forced = some word) (number : UInt64) (buffer : Bytes)
    (offset index source field : UInt64) :
    (loadWords number buffer offset index source field).Forces host
      (.load number buffer.length offset index source field)
      (.ok ⟨word, buffer.length, buffer, rfl⟩) := by
  have hmap := (request_forces hf (.load number buffer.length offset index source field)).map
    fun reply => (⟨reply.result, reply.length.getD buffer.length,
      Bytes.overwrite buffer reply.written, Bytes.length_overwrite buffer reply.written⟩ :
      Delivery buffer.length)
  simp only [Except.map, Bytes.overwrite_nil, Option.getD_none] at hmap
  exact hmap

theorem load_forces (hf : host.forced = some word) (target : Target) (buffer : Bytes)
    (offset : UInt64) :
    (load target buffer offset).Forces host (.ofTarget target buffer.length offset)
      (decoded (.ofWord word) ⟨.ok buffer.length, buffer, rfl⟩ fun error =>
        ⟨.error error, buffer, rfl⟩) := by
  have hwords := loadWords_forces hf target.resource.number buffer offset target.index
    target.source target.field
  apply hwords.bind
  exact check_yields rfl word fun status =>
    (⟨status.map fun _ => buffer.length, buffer, rfl⟩ : Loaded buffer.length)

theorem loadCode_forces (hf : host.forced = some word) (buffer : Bytes)
    (offset size index : UInt64) (source : Source) :
    (loadCode buffer offset size index source).Forces host
      (.loadCode buffer.length offset size index source.word)
      (decoded (.ofWord word) (.ok (), buffer) fun error => (.error error, buffer)) := by
  have hcheck (host : Host) (hf : host.forced = none) := check_yields hf word fun status =>
    (status, Bytes.overwrite buffer [])
  have hload : (loadCode buffer offset size index source).Forces host _ _ :=
    (request_forces hf _).bind (hcheck host.relieved rfl)
  rwa [Bytes.overwrite_nil] at hload

theorem loadExact_forces (hf : host.forced = some word) (target : Target) (width : Nat) :
    (loadExact target width).Forces host (.ofTarget target width 0)
      (decoded (.ofWord word) (.ok ⟨Bytes.zeros width, Bytes.length_zeros width⟩) .error) := by
  have hload := load_forces hf target (Bytes.zeros width) 0
  rw [ofTarget_zeros] at hload
  apply hload.bind_decoded
  · simp only [Bytes.length_zeros, if_pos]
    rfl
  · intro error
    rfl

theorem loadWhole_forces (hf : host.forced = some word) (target : Target) :
    (loadWhole target).Forces host (probeCall target)
      (decoded (.ofWord word) (.ok (Bytes.zeros probeSize)) .error) := by
  have hload := load_forces hf target (Bytes.zeros probeSize) 0
  rw [ofTarget_zeros] at hload
  apply hload.bind_decoded
  · -- The length that was not set is that of the probe, which takes itself to be full.
    have hfull : (Bytes.zeros probeSize).take probeSize = Bytes.zeros probeSize :=
      List.take_of_length_le (Nat.le_of_eq (Bytes.length_zeros probeSize))
    simp only [Bytes.length_zeros, Nat.le_refl, if_pos, hfull]
    rfl
  · intro error
    rfl

theorem loadDigest_forces (hf : host.forced = some word) (target : Target) :
    (loadDigest target).Forces host (.ofTarget target 32 0)
      (decoded (.ofWord word) (.ok Digest.zero) .error) := by
  have hmap := (loadExact_forces hf target 32).map fun answer =>
    answer.map fun bytes => (⟨bytes.1, bytes.2⟩ : Digest)
  rwa [map_decoded] at hmap

theorem loadWord_forces (hf : host.forced = some word) (target : Target) :
    (loadWord target).Forces host (.ofTarget target 8 0)
      (decoded (.ofWord word) (.ok 0) .error) := by
  have hmap := (loadExact_forces hf target 8).map fun answer =>
    answer.map fun bytes => UInt64.ofNat (Bytes.littleEndian bytes.1)
  rwa [map_decoded] at hmap

theorem callWords_forces (hf : host.forced = some word) {number : UInt64} {operands : Operands}
    (hnumber : number ≠ Call.exitNumber) :
    (callWords number operands).Forces host (.words number operands) (.ok word) := by
  have hmap := (request_forces hf (.words number operands)).map fun reply => reply.result
  rw [callWords]
  simp only [if_neg hnumber]
  exact hmap

theorem debug_forces (hf : host.forced = some word) (message : String) :
    (debug message).Forces host (.debug (messageBytes message)) (.ok ()) :=
  (request_forces hf _).map fun _ => ()

/-- How a request for another program takes a result word. To come back with success is a fault. -/
def execOutcome : Status → Except Fatal HostError
  | .refused error => .ok error
  | _ => .error (.exited abortCode)

theorem exec_forces (hf : host.forced = some word) (index : UInt64) (source : Source)
    (place : Place) (bounds : Bounds) (arguments : List Bytes) :
    (exec index source place bounds arguments).Forces host
      (.exec index source.word place.word bounds.toWord (arguments.map Terminated.write))
      (execOutcome (.ofWord word)) := by
  have hwords := (request_forces hf (.exec index source.word place.word bounds.toWord
    (arguments.map Terminated.write))).map fun reply => reply.result
  apply hwords.bind
  simp only [check]
  cases Status.ofWord word with
  | success => exact abort_yields rfl
  | refused error => exact .done error _
  | unknown => exact (abort_yields rfl).bind_fatal _

end Program

/-- The answer that is read from a cleared buffer. -/
def Form.blank : Form → Datum
  | .bytes => .bytes (Bytes.zeros 1024)
  | .word => .word 0
  | .digest => .digest .zero

namespace Query

variable {host : Host} {word : UInt64}

/-- The size of the buffer that a question is first tried with. -/
def width (query : Query) : Nat :=
  match query.form with
  | .bytes => Program.probeSize
  | .word => 8
  | .digest => 32

/-- The answer that a cleared buffer gives to a question. -/
def blank (query : Query) : Datum :=
  query.entry.form.blank

theorem load_forces (hf : host.forced = some word) (query : Query) (index : UInt64)
    (source : Source) :
    (query.load index source).Forces host (.ofTarget (query.target index source) query.width 0)
      (Program.decoded (.ofWord word) (.ok query.blank) .error) := by
  rw [load, width, blank, ← query.form_eq]
  cases query.form with
  | bytes =>
    have hmap := (Program.loadWhole_forces hf (query.target index source)).map fun answer =>
      answer.map Datum.bytes
    rwa [Program.map_decoded] at hmap
  | word =>
    have hmap := (Program.loadWord_forces hf (query.target index source)).map fun answer =>
      answer.map Datum.word
    rwa [Program.map_decoded] at hmap
  | digest =>
    have hmap := (Program.loadDigest_forces hf (query.target index source)).map fun answer =>
      answer.map Datum.digest
    rwa [Program.map_decoded] at hmap

end Query

namespace Cursor

variable {host : Host} {word : UInt64}

/-- How a step of a walk takes a result word. The code of a missing item ends the walk, and every
other refusal is a fault. -/
def forcedOutcome (cursor : Cursor) : Status → Except Fatal (Option Datum × Cursor)
  | .success => .ok (some cursor.query.blank, { cursor with index := cursor.index + 1 })
  | .refused .itemMissing => .ok (none, cursor)
  | _ => .error (.exited Program.abortCode)

theorem forcedOutcome_of_ne (cursor : Cursor) (hzero : word ≠ 0) (hmissing : word ≠ 2) :
    cursor.forcedOutcome (.ofWord word) = .error (.exited Program.abortCode) := by
  rcases Status.word_cases word with h | ⟨error, h⟩ | h
  · exact absurd h hzero
  · rw [h, Status.ofWord_code]
    cases error with
    | itemMissing => exact absurd h hmissing
    | _ => rfl
  · rw [Status.ofWord_of_five_le h]
    rfl

theorem next_forces (hf : host.forced = some word) (cursor : Cursor) :
    cursor.next.Forces host
      (.ofTarget (cursor.query.target (UInt64.ofNat cursor.index) cursor.source)
        cursor.query.width 0)
      (cursor.forcedOutcome (.ofWord word)) := by
  have hload := cursor.query.load_forces hf (UInt64.ofNat cursor.index) cursor.source
  cases hstatus : Status.ofWord word with
  | success =>
    rw [hstatus] at hload
    exact Program.Forces.bind hload (.done _ _)
  | refused error =>
    rw [hstatus] at hload
    cases error with
    | itemMissing => exact Program.Forces.bind hload (.done _ _)
    | indexOutOfBound | sliceOutOfBound | wrongFormat =>
      exact Program.Forces.bind hload (Program.abort_yields rfl)
  | unknown =>
    rw [hstatus] at hload
    exact Program.Forces.bind_fatal hload _

end Cursor

namespace Session

variable {session : Session} {word : UInt64}

/-- What an action answers, and leaves in the caller's memory, when its load succeeds without having
brought anything. -/
def Action.blank? : Action → Option (Value × Memory)
  | loadInto _ buffer _ => some (.number buffer.length, { buffer := some buffer })
  | loadCode buffer .. => some (.nothing, { buffer := some buffer })
  | loadTxHash | loadScriptHash => some (.datum (.digest .zero), {})
  | loadScript | loadTransaction => some (.datum (.bytes (Bytes.zeros 1024)), {})
  | ask query .. => some (.datum query.blank, {})
  | _ => none

theorem Action.load_forces {host : Host} (hf : host.forced = some word) {action : Action}
    {value : Value} {memory : Memory} (h : action.blank? = some (value, memory)) :
    ∃ call, action.program.Forces host call
      (Program.decoded (.ofWord word) (.ok value memory) fun error => .refused error memory) := by
  cases action with
  | loadInto target buffer offset =>
    cases h
    have hload := Program.load_forces hf target buffer offset
    exact ⟨_, hload.bind_decoded rfl fun _ => rfl⟩
  | loadCode buffer offset size index source =>
    cases h
    have hload := Program.loadCode_forces hf buffer offset size index source
    exact ⟨_, hload.bind_decoded rfl fun _ => rfl⟩
  | loadTxHash =>
    cases h
    exact ⟨_, (Program.loadDigest_forces hf .txHash).bind_decoded rfl fun _ => rfl⟩
  | loadScriptHash =>
    cases h
    exact ⟨_, (Program.loadDigest_forces hf .scriptHash).bind_decoded rfl fun _ => rfl⟩
  | loadScript =>
    cases h
    exact ⟨_, (Program.loadWhole_forces hf .script).bind_decoded rfl fun _ => rfl⟩
  | loadTransaction =>
    cases h
    exact ⟨_, (Program.loadWhole_forces hf .transaction).bind_decoded rfl fun _ => rfl⟩
  | ask query index source =>
    cases h
    exact ⟨_, (query.load_forces hf index source).bind_decoded rfl fun _ => rfl⟩
  | _ => cases h

/-- The answer to a step whose program ended so. -/
def Answer.ofOutcome : Except Fatal Answer → Answer
  | .ok answer => answer
  | .error reason => .fatal reason

/-- An answer takes a result word for a success, for a refusal, or for a fault. -/
structure Answer.FailsClosed (answer : Answer) (word : UInt64) (success : Answer)
    (refusal : HostError → Answer) : Prop where
  zero : word = 0 → answer = success
  coded : ∀ error, word = error.code → answer = refusal error
  fault : 5 ≤ word → answer = .fatal (.exited (-2))

theorem Answer.failsClosed_of_status (read : Status → Answer)
    (hunknown : read .unknown = .fatal (.exited (-2))) (word : UInt64) :
    (read (.ofWord word)).FailsClosed word (read .success) fun error => read (.refused error) where
  zero hword := by
    rw [hword]
    rfl
  coded error hword := by
    rw [hword, Status.ofWord_code]
  fault hword := by
    rw [Status.ofWord_of_five_le hword, hunknown]

theorem Answer.failsClosed_decoded (word : UInt64) (success : Answer)
    (refusal : HostError → Answer) :
    (ofOutcome (Program.decoded (.ofWord word) success refusal)).FailsClosed word success refusal :=
  failsClosed_of_status (fun status => ofOutcome (Program.decoded status success refusal)) rfl word

theorem Answer.failsClosed_exec (word : UInt64) :
    (ofOutcome ((Program.execOutcome (.ofWord word)).map fun error => refused error {})).FailsClosed
      word (.fatal (.exited (-2))) fun error => .refused error {} :=
  failsClosed_of_status
    (fun status => ofOutcome ((Program.execOutcome status).map fun error => refused error {})) rfl
    word

theorem step_perform_forces {action : Action} {call : Call} {outcome : Except Fatal Answer}
    (h : action.program.Forces session.host call outcome) (ha : session.host.Affords 2) :
    session.step (.perform action) =
      (⟨.ofOutcome outcome, call :: Program.abortCalls outcome⟩,
        { session with
          host := session.host.relieved.spend (call :: Program.abortCalls outcome) }) := by
  simp only [step, perform, h ha]
  rfl

theorem step_advance_of_value {id : Nat} {move : Move} {cursor moved : Cursor} {value : Value}
    {trace : List Call} {left : Host} (hcursor : session.cursor? id = some cursor)
    (hrun : (move.program cursor).run session.host = ⟨.ok (value, moved), trace, left⟩) :
    session.step (.advance id move) =
      (⟨.value value, trace⟩, ⟨left, session.cursors.set id (some moved)⟩) := by
  simp only [step, hcursor, advance, hrun]

theorem step_advance_of_fatal {id : Nat} {move : Move} {cursor : Cursor} {reason : Fatal}
    {trace : List Call} {left : Host} (hcursor : session.cursor? id = some cursor)
    (hrun : (move.program cursor).run session.host = ⟨.error reason, trace, left⟩) :
    session.step (.advance id move) =
      (⟨.fatal reason, trace⟩, ⟨left, session.cursors.set id none⟩) := by
  simp only [step, hcursor, advance, hrun]

theorem cursor?_set {id : Nat} {cursor : Cursor} (hcursor : session.cursor? id = some cursor)
    (host : Host) (moved : Cursor) :
    (Session.mk host (session.cursors.set id (some moved))).cursor? id = some moved := by
  have hlt : id < session.cursors.length := by
    by_contra hn
    rw [cursor?, List.getElem?_eq_none (Nat.le_of_not_lt hn)] at hcursor
    cases hcursor
  rw [cursor?, List.getElem?_set_self hlt]
  rfl

theorem step_next_forces {id : Nat} {cursor : Cursor} (hf : session.host.forced = some word)
    (ha : session.host.Affords 2) (hcursor : session.cursor? id = some cursor) :
    let record := (session.step (.advance id .next)).1
    let left := (session.step (.advance id .next)).2
    (word = 2 → record.answer = .value (.item none) ∧ left.cursor? id = some cursor) ∧
      (word = 0 → record.answer = .value (.item (some cursor.query.blank)) ∧
        left.cursor? id = some { cursor with index := cursor.index + 1 }) ∧
      (word ≠ 2 → word ≠ 0 → record.answer = .fatal (.exited (-2))) ∧
      left.host = session.host.relieved.spend record.trace := by
  have hrun : (Move.next.program cursor).run session.host = _ :=
    ((cursor.next_forces hf).map fun item => (Value.item item.1, item.2)) ha
  by_cases hmissing : word = 2
  · subst hmissing
    have hstep := step_advance_of_value hcursor hrun
    rw [hstep]
    refine ⟨fun _ => ⟨rfl, cursor?_set hcursor _ cursor⟩, ?_, ?_, rfl⟩
    · intro hzero
      exact absurd hzero (by decide)
    · intro hne
      exact absurd rfl hne
  · by_cases hzero : word = 0
    · subst hzero
      have hstep := step_advance_of_value hcursor hrun
      rw [hstep]
      refine ⟨?_, fun _ => ⟨rfl, cursor?_set hcursor _ _⟩, ?_, rfl⟩
      · intro hmissing'
        exact absurd hmissing' hmissing
      · intro _ hne
        exact absurd rfl hne
    · rw [cursor.forcedOutcome_of_ne hzero hmissing] at hrun
      have hstep := step_advance_of_fatal hcursor hrun
      rw [hstep]
      exact ⟨fun h => absurd h hmissing, fun h => absurd h hzero, fun _ _ => rfl, rfl⟩

/-- Whatever word stands in for the result of a step's first call, a load or a request for another
program takes it for a success, for a refusal, or stops. A step of a walk forgives the code of a
missing item alone. What tells the machine's words passes the word on, and a message is not kept.
Nothing else of the host is changed. -/
theorem forced_word_fails_closed (hf : session.host.forced = some word)
    (hc : session.host.cycles ≤ 2 ^ 64 - 1 - 1000) :
    (∀ action value memory, action.blank? = some (value, memory) →
      let record := (session.step (.perform action)).1
      let left := (session.step (.perform action)).2
      record.answer.FailsClosed word (.ok value memory) (fun error => .refused error memory) ∧
        (word = 0 → record.trace.length = 1) ∧
        left.host = session.host.relieved.spend record.trace) ∧
    (∀ index source place bounds arguments,
      let record := (session.step (.perform (.exec index source place bounds arguments))).1
      let left := (session.step (.perform (.exec index source place bounds arguments))).2
      record.answer.FailsClosed word (.fatal (.exited (-2))) (fun error => .refused error {}) ∧
        left.host = session.host.relieved.spend record.trace ∧
        left.host.execs = session.host.execs) ∧
    (∀ id cursor, session.cursor? id = some cursor →
      let record := (session.step (.advance id .next)).1
      let left := (session.step (.advance id .next)).2
      (word = 2 → record.answer = .value (.item none) ∧ left.cursor? id = some cursor) ∧
        (word = 0 → record.answer = .value (.item (some cursor.query.blank)) ∧
          left.cursor? id = some { cursor with index := cursor.index + 1 }) ∧
        (word ≠ 2 → word ≠ 0 → record.answer = .fatal (.exited (-2))) ∧
        left.host = session.host.relieved.spend record.trace) ∧
    (∀ action, action = .vmVersion ∨ action = .currentCycles →
      let record := (session.step (.perform action)).1
      let left := (session.step (.perform action)).2
      record.answer = .value (.word word) ∧
        left.host = session.host.relieved.spend record.trace) ∧
    (∀ action message, (action = .debug message ∨
        ∃ index source, action = .debugLoading index source message) →
      let record := (session.step (.perform action)).1
      let left := (session.step (.perform action)).2
      record.answer = .value .nothing ∧
        left.host = session.host.relieved.spend record.trace ∧
        left.host.messages = session.host.messages) := by
  have ha : session.host.Affords 2 := by
    simp only [Host.Affords, Host.cyclesPerCall]
    omega
  refine ⟨?_, ?_, ?_, ?_, ?_⟩
  · intro action value memory hblank
    obtain ⟨call, hforces⟩ := Action.load_forces hf hblank
    rw [step_perform_forces hforces ha]
    refine ⟨Answer.failsClosed_decoded word _ _, ?_, rfl⟩
    rintro rfl
    rfl
  · intro index source place bounds arguments
    have hexec := Program.exec_forces hf index source place bounds arguments
    have hforces := hexec.map fun error => Answer.refused error {}
    have hstep : session.step (.perform (.exec index source place bounds arguments)) = _ :=
      step_perform_forces hforces ha
    rw [hstep]
    exact ⟨Answer.failsClosed_exec word, rfl, rfl⟩
  · intro id cursor hcursor
    exact step_next_forces hf ha hcursor
  · have hversion : Call.vmVersionNumber ≠ Call.exitNumber := by decide
    have hcycles : Call.currentCyclesNumber ≠ Call.exitNumber := by decide
    have hwords {number : UInt64} (hnumber : number ≠ Call.exitNumber) :
        (Program.callWords number {}).Forces session.host (.words number {}) (.ok word) :=
      Program.callWords_forces hf hnumber
    rintro action (rfl | rfl)
    · have hstep : session.step (.perform .vmVersion) = _ :=
        step_perform_forces ((hwords hversion).map fun word => Answer.value (.word word)) ha
      rw [hstep]
      exact ⟨rfl, rfl⟩
    · have hstep : session.step (.perform .currentCycles) = _ :=
        step_perform_forces ((hwords hcycles).map fun word => Answer.value (.word word)) ha
      rw [hstep]
      exact ⟨rfl, rfl⟩
  · have hdebug (text : String) := (Program.debug_forces hf text).map fun _ => Answer.value .nothing
    rintro action message (rfl | ⟨index, source, rfl⟩)
    · have hstep : session.step (.perform (.debug message)) = _ :=
        step_perform_forces (hdebug message) ha
      rw [hstep]
      exact ⟨rfl, rfl, rfl⟩
    · have hstep : session.step (.perform (.debugLoading index source message)) = _ :=
        step_perform_forces (hdebug _) ha
      rw [hstep]
      exact ⟨rfl, rfl, rfl⟩

/-- The code of a missing item, on a host that has one cursor open. -/
theorem forced_word_fails_closed_missing :
    let session : Session := {
      host := { forced := some 2 }
      cursors := [some { query := .header, source := .cellDep, index := 3 }] }
    (session.host.forced = some 2 ∧ session.host.cycles ≤ 2 ^ 64 - 1 - 1000) ∧
      (session.step (.perform (.ask .cellCapacity 0 .input))).1.answer = .refused .itemMissing {} ∧
      (session.step (.perform (.exec 0 .input .witness .whole []))).1.answer =
        .refused .itemMissing {} ∧
      (session.step (.advance 0 .next)).1.answer = .value (.item none) ∧
      (session.step (.perform .vmVersion)).1.answer = .value (.word 2) ∧
      (session.step (.perform (.debug "x"))).2.host.messages = [] := by
  intro session
  have hf : session.host.forced = some 2 := rfl
  have hc : session.host.cycles ≤ 2 ^ 64 - 1 - 1000 := by decide
  obtain ⟨hload, hexec, hnext, hwords, hdebug⟩ := forced_word_fails_closed hf hc
  have hask := (hload (.ask .cellCapacity 0 .input) _ _ rfl).1.coded .itemMissing rfl
  have hreplace := (hexec 0 .input .witness .whole []).1.coded .itemMissing rfl
  have hwalk := ((hnext 0 _ rfl).1 rfl).1
  have hword := (hwords .vmVersion (Or.inl rfl)).1
  have hprint := (hdebug (.debug "x") "x" (Or.inl rfl)).2.2
  exact ⟨⟨hf, hc⟩, hask, hreplace, hwalk, hword, hprint⟩

end Session

end ScriptHost
