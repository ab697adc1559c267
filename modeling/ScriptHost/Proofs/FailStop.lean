import ScriptHost.Proofs.Loading
import ScriptHost.Proofs.Stepping

/-! Exits. Up to its exit a program makes calls that come back, and behind its exit it makes none,
so that nothing a script does outlives its wish to end. -/

namespace ScriptHost

/-- Whatever host serves the call, it comes back with a reply, unless it replaces the program where
`replacing` holds. -/
def Call.Safe (replacing : Prop) (call : Call) : Prop :=
  ∀ (host : Host) (fatal : Fatal), (host.serve call).1 = .error fatal →
    replacing ∧ fatal = .replaced

namespace Call.Safe

variable {replacing : Prop} {call : Call}

theorem load (resource : Resource) (capacity : Nat) (offset index source field : UInt64) :
    (Call.load resource.number capacity offset index source field).Safe replacing := by
  intro host fatal h
  rw [Host.serve_load] at h
  cases h

theorem loadCode (capacity : Nat) (offset size index source : UInt64) :
    (Call.loadCode capacity offset size index source).Safe replacing := by
  intro host fatal h
  cases h

theorem debug (memory : Bytes) : (Call.debug memory).Safe replacing := by
  intro host fatal h
  cases h

theorem vmVersion (operands : Operands) :
    (Call.words Call.vmVersionNumber operands).Safe replacing := by
  intro host fatal h
  cases h

theorem currentCycles (operands : Operands) :
    (Call.words Call.currentCyclesNumber operands).Safe replacing := by
  intro host fatal h
  cases h

theorem exec (index source place bounds : UInt64) (arguments : List Bytes) :
    (Call.exec index source place bounds arguments).Safe True := by
  intro host fatal h
  exact ⟨True.intro, Host.serveExec_fatal h⟩

theorem number_ne_exit (h : call.Safe replacing) : call.number ≠ Call.exitNumber := by
  intro hnumber
  cases call with
  | load number capacity offset index source field =>
    cases hnumber
    cases (h {} (.unknownNumber Call.exitNumber) rfl).2
  | words number operands =>
    cases hnumber
    cases (h {} (.exited operands.a0.toUInt8.toInt8) rfl).2
  | loadCode | exec | debug => cases hnumber

end Call.Safe

namespace Program

variable {α β : Type} {replacing : Prop} {code : Int8}

/-- Programs that make safe calls, and that are over once they have asked to exit with a code. -/
inductive FailStop (replacing : Prop) (code : Int8) : Program α → Prop where
  | done (value : α) : FailStop replacing code (.done value)
  | exit {next : Reply → Program α} (hspin : ∀ reply, next reply = .spin) :
      FailStop replacing code (.call (exitCall code) next)
  | call {request : Call} {next : Reply → Program α} (hsafe : request.Safe replacing)
      (hnext : ∀ reply, FailStop replacing code (next reply)) :
      FailStop replacing code (.call request next)

/-- Programs of that kind that make a safe call before anything else. -/
inductive Asks (replacing : Prop) (code : Int8) : Program α → Prop where
  | call {request : Call} {next : Reply → Program α} (hsafe : request.Safe replacing)
      (hnext : ∀ reply, (next reply).FailStop replacing code) :
      Asks replacing code (.call request next)

variable {program : Program α} {next : α → Program β}

theorem FailStop.bind (h : program.FailStop replacing code)
    (hn : ∀ value, (next value).FailStop replacing code) :
    (program.bind next).FailStop replacing code := by
  induction h with
  | done value => exact hn value
  | exit hspin =>
    apply FailStop.exit
    intro reply
    rw [hspin]
    rfl
  | call hsafe hnext ih => exact .call hsafe ih

theorem Asks.failStop (h : program.Asks replacing code) : program.FailStop replacing code := by
  cases h with
  | call hsafe hnext => exact .call hsafe hnext

theorem Asks.bind (h : program.Asks replacing code)
    (hn : ∀ value, (next value).FailStop replacing code) :
    (program.bind next).Asks replacing code := by
  cases h with
  | call hsafe hnext => exact .call hsafe fun reply => (hnext reply).bind hn

theorem request_asks {call : Call} (hsafe : call.Safe replacing) :
    (request call).Asks replacing code :=
  .call hsafe .done

theorem exit_failStop (code : Int8) : (exit code : Program α).FailStop replacing code :=
  .exit fun _ => rfl

theorem abort_failStop : (abort : Program α).FailStop replacing abortCode :=
  exit_failStop abortCode

theorem check_failStop (result : UInt64) : (check result).FailStop replacing abortCode := by
  rw [check]
  split
  · exact .done _
  · exact .done _
  · exact abort_failStop

theorem callWords_asks {number : UInt64} {operands : Operands}
    (hsafe : (Call.words number operands).Safe replacing) :
    (callWords number operands).Asks replacing code := by
  have hnumber : number ≠ Call.exitNumber := hsafe.number_ne_exit
  apply (request_asks hsafe).bind
  intro reply
  rw [if_neg hnumber]
  exact .done _

theorem debug_asks (message : String) : (debug message).Asks replacing code :=
  (request_asks (.debug _)).bind fun _ => .done _

theorem panic_asks (message : String) : (panic message : Program α).Asks replacing panicCode :=
  (debug_asks message).bind fun _ => exit_failStop panicCode

theorem execWords_asks (index source place bounds : UInt64) (arguments : List Bytes) :
    (execWords index source place bounds arguments).Asks True code :=
  (request_asks (.exec _ _ _ _ _)).bind fun _ => .done _

theorem exec_asks (index : UInt64) (source : Source) (place : Place) (bounds : Bounds)
    (arguments : List Bytes) :
    (exec index source place bounds arguments).Asks True abortCode := by
  apply (execWords_asks _ _ _ _ _).bind
  intro result
  apply (check_failStop result).bind
  intro status
  cases status with
  | error error => exact .done error
  | ok _ => exact abort_failStop

theorem load_asks (target : Target) (buffer : Bytes) (offset : UInt64) :
    (load target buffer offset).Asks replacing abortCode := by
  apply Asks.bind
  · exact (request_asks (.load _ _ _ _ _ _)).bind fun _ => .done _
  · intro delivery
    exact (check_failStop _).bind fun _ => .done _

theorem loadCode_asks (buffer : Bytes) (offset size index : UInt64) (source : Source) :
    (loadCode buffer offset size index source).Asks replacing abortCode := by
  apply (request_asks (.loadCode _ _ _ _ _)).bind
  intro reply
  exact (check_failStop _).bind fun _ => .done _

theorem loadExact_asks (target : Target) (width : Nat) :
    (loadExact target width).Asks replacing abortCode := by
  apply (load_asks target _ 0).bind
  intro loaded
  cases loaded.answer with
  | error error => exact .done _
  | ok length =>
    dsimp only
    split
    · exact .done _
    · exact abort_failStop

theorem loadWhole_asks (target : Target) : (loadWhole target).Asks replacing abortCode := by
  apply (load_asks target _ 0).bind
  intro probe
  cases probe.answer with
  | error error => exact .done _
  | ok length =>
    dsimp only
    split
    · exact .done _
    · apply (load_asks target _ _).failStop.bind
      intro rest
      cases rest.answer with
      | error error => exact .done _
      | ok again =>
        dsimp only
        split
        · exact .done _
        · exact abort_failStop

theorem loadDigest_asks (target : Target) : (loadDigest target).Asks replacing abortCode :=
  (loadExact_asks target 32).bind fun _ => .done _

theorem loadWord_asks (target : Target) : (loadWord target).Asks replacing abortCode :=
  (loadExact_asks target 8).bind fun _ => .done _

end Program

theorem Query.load_asks {replacing : Prop} (query : Query) (index : UInt64) (source : Source) :
    (query.load index source).Asks replacing Program.abortCode := by
  simp only [load]
  cases query.form with
  | bytes => exact (Program.loadWhole_asks _).bind fun _ => .done _
  | word => exact (Program.loadWord_asks _).bind fun _ => .done _
  | digest => exact (Program.loadDigest_asks _).bind fun _ => .done _

namespace Cursor

open Program (abortCode abort_failStop)

variable {replacing : Prop}

theorem next_asks (cursor : Cursor) : cursor.next.Asks replacing abortCode := by
  apply (cursor.query.load_asks _ cursor.source).bind
  intro answer
  cases answer with
  | ok datum => exact .done _
  | error error =>
    cases error with
    | itemMissing => exact .done _
    | indexOutOfBound | sliceOutOfBound | wrongFormat => exact abort_failStop

theorem take_asks {limit : Nat}
    (hrest : ∀ cursor, (take limit cursor).FailStop replacing abortCode) (cursor : Cursor) :
    (take (limit + 1) cursor).Asks replacing abortCode := by
  apply cursor.next_asks.bind
  rintro ⟨item, moved⟩
  cases item with
  | none => exact .done _
  | some datum => exact (hrest moved).bind fun _ => .done _

theorem take_failStop (limit : Nat) (cursor : Cursor) :
    (take limit cursor).FailStop replacing abortCode := by
  induction limit generalizing cursor with
  | zero => exact .done _
  | succ limit ih => exact (take_asks ih cursor).failStop

theorem nth_asks (skip : Nat) (cursor : Cursor) :
    (nth skip cursor).Asks replacing abortCode := by
  induction skip generalizing cursor with
  | zero => exact cursor.next_asks
  | succ skip ih =>
    apply cursor.next_asks.bind
    rintro ⟨item, moved⟩
    cases item with
    | none => exact .done _
    | some datum => exact (ih moved).failStop

theorem find_asks {test : Datum → Bool} {limit : Nat}
    (hrest : ∀ cursor, (find test limit cursor).FailStop replacing abortCode) (cursor : Cursor) :
    (find test (limit + 1) cursor).Asks replacing abortCode := by
  apply cursor.next_asks.bind
  rintro ⟨item, moved⟩
  cases item with
  | none => exact .done _
  | some datum =>
    dsimp only
    split
    · exact .done _
    · exact hrest moved

theorem find_failStop (test : Datum → Bool) (limit : Nat) (cursor : Cursor) :
    (find test limit cursor).FailStop replacing abortCode := by
  induction limit generalizing cursor with
  | zero => exact .done _
  | succ limit ih => exact (find_asks ih cursor).failStop

end Cursor

namespace Query

variable {replacing : Prop}

theorem indexCount_eq : indexCount = 2 ^ 64 - 1 + 1 := rfl

theorem collect_asks (query : Query) (source : Source) :
    (query.collect source).Asks replacing Program.abortCode := by
  rw [collect, indexCount_eq]
  exact (Cursor.take_asks (Cursor.take_failStop _) _).bind fun _ => .done _

theorem count_asks (query : Query) (source : Source) :
    (query.count source).Asks replacing Program.abortCode :=
  (query.collect_asks source).bind fun _ => .done _

theorem findCellByDataHash_asks (digest : Digest) (source : Source) :
    (findCellByDataHash digest source).Asks replacing Program.abortCode := by
  rw [findCellByDataHash, indexCount_eq]
  exact Cursor.find_asks (Cursor.find_failStop _ _) _

end Query

end ScriptHost
