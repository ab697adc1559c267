import ScriptHost.Proofs.Stepping
import ScriptHost.Proofs.WholeLoad

/-! The numbers of the calls that a program can make. They are known from the program alone,
whatever a host replies, and so tell in advance what its runs can touch. -/

namespace ScriptHost

/-- The kind of byte string that a question is about. -/
def Query.resource (query : Query) : Resource :=
  (query.target 0 .input).resource

theorem Query.resource_target (query : Query) (index : UInt64) (source : Source) :
    (query.target index source).resource = query.resource := by
  cases query <;> rfl

namespace Program

variable {α β : Type} {program : Program α} {next : α → Program β} {numbers : List UInt64}

/-- Every call of the program has one of the numbers, whatever the replies are. -/
def Makes (numbers : List UInt64) : Program α → Prop
  | done _ => True
  | spin => True
  | call request next => request.number ∈ numbers ∧ ∀ reply, (next reply).Makes numbers

theorem Makes.bind (h : program.Makes numbers) (hn : ∀ value, (next value).Makes numbers) :
    (program.bind next).Makes numbers := by
  induction program with
  | done value => exact hn value
  | spin => exact True.intro
  | call request rest ih =>
    refine ⟨h.1, ?_⟩
    intro reply
    exact ih reply (h.2 reply)

/-- What follows need only be known for the values that the program gives. -/
theorem Makes.bind_gives {P : α → Prop} (h : program.Makes numbers) (hg : program.Gives P)
    (hn : ∀ value, P value → (next value).Makes numbers) : (program.bind next).Makes numbers := by
  induction program with
  | done value => exact hn value hg
  | spin => exact True.intro
  | call request rest ih =>
    refine ⟨h.1, ?_⟩
    intro reply
    exact ih reply (h.2 reply) (hg reply)

theorem Makes.map (h : program.Makes numbers) (f : α → β) :
    (program.bind fun value => done (f value)).Makes numbers :=
  h.bind fun _ => True.intro

theorem request_makes {call : Call} (h : call.number ∈ numbers) : (request call).Makes numbers :=
  ⟨h, fun _ => True.intro⟩

theorem callWords_makes {number : UInt64} (h : number ∈ numbers) (operands : Operands) :
    (callWords number operands).Makes numbers := by
  have hrequest : (request (.words number operands)).Makes numbers := request_makes h
  apply hrequest.bind
  intro reply
  split <;> exact True.intro

theorem debug_makes (h : Call.debugNumber ∈ numbers) (message : String) :
    (debug message).Makes numbers := by
  have hrequest : (request (.debug (messageBytes message))).Makes numbers := request_makes h
  exact hrequest.map _

theorem execWords_makes (h : Call.execNumber ∈ numbers) (index source place bounds : UInt64)
    (arguments : List Bytes) : (execWords index source place bounds arguments).Makes numbers := by
  have hrequest : (request (.exec index source place bounds
      (arguments.map Terminated.write))).Makes numbers := request_makes h
  exact hrequest.map _

theorem loadWords_makes {number : UInt64} (h : number ∈ numbers) (buffer : Bytes)
    (offset index source field : UInt64) :
    (loadWords number buffer offset index source field).Makes numbers := by
  have hrequest : (request (.load number buffer.length offset index source field)).Makes numbers :=
    request_makes h
  exact hrequest.map _

section Exits

/- Programs that may give up need the number of the exit call besides their own. -/
variable (hexit : Call.exitNumber ∈ numbers)
include hexit

theorem exit_makes (code : Int8) : (exit code : Program α).Makes numbers :=
  ⟨hexit, fun _ => True.intro⟩

theorem abort_makes : (abort : Program α).Makes numbers :=
  exit_makes hexit abortCode

theorem panic_makes (h : Call.debugNumber ∈ numbers) (message : String) :
    (panic message : Program α).Makes numbers :=
  (debug_makes h message).bind fun _ => exit_makes hexit panicCode

theorem check_makes (result : UInt64) : (check result).Makes numbers := by
  rw [check]
  split
  · exact True.intro
  · exact True.intro
  · exact abort_makes hexit

theorem exec_makes (h : Call.execNumber ∈ numbers) (index : UInt64) (source : Source)
    (place : Place) (bounds : Bounds) (arguments : List Bytes) :
    (exec index source place bounds arguments).Makes numbers := by
  apply (execWords_makes h _ _ _ _ arguments).bind
  intro result
  apply (check_makes hexit result).bind
  intro status
  cases status with
  | error error => exact True.intro
  | ok _ => exact abort_makes hexit

theorem loadCode_makes (h : Call.loadCodeNumber ∈ numbers) (buffer : Bytes)
    (offset size index : UInt64) (source : Source) :
    (loadCode buffer offset size index source).Makes numbers := by
  have hrequest : (request (.loadCode buffer.length offset size index source.word)).Makes numbers :=
    request_makes h
  apply hrequest.bind
  intro reply
  exact (check_makes hexit reply.result).map _

variable {target : Target} (hload : target.resource.number ∈ numbers)
include hload

theorem load_makes (buffer : Bytes) (offset : UInt64) :
    (load target buffer offset).Makes numbers := by
  apply (loadWords_makes hload buffer offset _ _ _).bind
  intro delivery
  exact (check_makes hexit delivery.result).map _

theorem loadExact_makes (width : Nat) : (loadExact target width).Makes numbers := by
  apply (load_makes hexit hload _ 0).bind
  intro loaded
  cases loaded.answer with
  | error error => exact True.intro
  | ok length =>
    dsimp only
    split
    · exact True.intro
    · exact abort_makes hexit

theorem complete_makes (probe : Bytes) (length : Nat) :
    (complete target probe length).Makes numbers := by
  apply (load_makes hexit hload _ _).bind
  intro rest
  cases rest.answer with
  | error error => exact True.intro
  | ok again =>
    dsimp only
    split
    · exact True.intro
    · exact abort_makes hexit

theorem loadWhole_makes : (loadWhole target).Makes numbers := by
  rw [loadWhole_eq]
  apply (load_makes hexit hload _ 0).bind
  intro probe
  cases probe.answer with
  | error error => exact True.intro
  | ok length =>
    dsimp only
    split
    · exact True.intro
    · exact complete_makes hexit hload probe.buffer length

theorem loadDigest_makes : (loadDigest target).Makes numbers :=
  (loadExact_makes hexit hload 32).map _

theorem loadWord_makes : (loadWord target).Makes numbers :=
  (loadExact_makes hexit hload 8).map _

end Exits

end Program

namespace Cursor

/-- A step of a walk keeps what the walk asks and where. -/
theorem next_gives (cursor : Cursor) :
    cursor.next.Gives fun result =>
      result.2.query = cursor.query ∧ result.2.source = cursor.source := by
  apply Program.Gives.bind
  intro answer
  cases answer with
  | ok datum => exact ⟨rfl, rfl⟩
  | error error =>
    cases error with
    | itemMissing => exact ⟨rfl, rfl⟩
    | indexOutOfBound | sliceOutOfBound | wrongFormat => exact fun _ => True.intro

end Cursor

section Walks

open Program

variable {numbers : List UInt64} {query : Query} (hexit : Call.exitNumber ∈ numbers)
  (hload : query.resource.number ∈ numbers)
include hexit hload

theorem Query.load_makes (index : UInt64) (source : Source) :
    (query.load index source).Makes numbers := by
  have htarget : (query.target index source).resource.number ∈ numbers := by
    rw [query.resource_target]
    exact hload
  rw [load]
  cases query.form with
  | bytes => exact (loadWhole_makes hexit htarget).map _
  | word => exact (loadWord_makes hexit htarget).map _
  | digest => exact (loadDigest_makes hexit htarget).map _

namespace Cursor

variable {cursor : Cursor}

theorem next_makes (hquery : cursor.query = query) : cursor.next.Makes numbers := by
  subst hquery
  apply (cursor.query.load_makes hexit hload _ cursor.source).bind
  intro answer
  cases answer with
  | ok datum => exact True.intro
  | error error =>
    cases error with
    | itemMissing => exact True.intro
    | indexOutOfBound | sliceOutOfBound | wrongFormat => exact abort_makes hexit

/-- What a walk does behind a step need only be known for walks that ask the same. -/
theorem next_bind_makes {α : Type} {rest : Option Datum × Cursor → Program α}
    (hquery : cursor.query = query)
    (hrest : ∀ item moved, moved.query = query → (rest (item, moved)).Makes numbers) :
    (cursor.next.bind rest).Makes numbers := by
  apply (next_makes hexit hload hquery).bind_gives cursor.next_gives
  rintro ⟨item, moved⟩ hmoved
  apply hrest
  exact hmoved.1.trans hquery

theorem take_makes (limit : Nat) (hquery : cursor.query = query) :
    (take limit cursor).Makes numbers := by
  induction limit generalizing cursor with
  | zero => exact True.intro
  | succ limit ih =>
    apply next_bind_makes hexit hload hquery
    intro item moved hmoved
    cases item with
    | none => exact True.intro
    | some datum => exact (ih hmoved).map _

theorem nth_makes (skip : Nat) (hquery : cursor.query = query) :
    (nth skip cursor).Makes numbers := by
  induction skip generalizing cursor with
  | zero => exact next_makes hexit hload hquery
  | succ skip ih =>
    apply next_bind_makes hexit hload hquery
    intro item moved hmoved
    cases item with
    | none => exact True.intro
    | some datum => exact ih hmoved

theorem find_makes (test : Datum → Bool) (limit : Nat) (hquery : cursor.query = query) :
    (find test limit cursor).Makes numbers := by
  induction limit generalizing cursor with
  | zero => exact True.intro
  | succ limit ih =>
    apply next_bind_makes hexit hload hquery
    intro item moved hmoved
    cases item with
    | none => exact True.intro
    | some datum =>
      dsimp only
      split
      · exact True.intro
      · exact ih hmoved

end Cursor

theorem Query.collect_makes (source : Source) : (query.collect source).Makes numbers :=
  (Cursor.take_makes hexit hload indexCount rfl).map _

theorem Query.count_makes (source : Source) : (query.count source).Makes numbers :=
  (query.collect_makes hexit hload source).map _

end Walks

theorem Query.findCellByDataHash_makes {numbers : List UInt64}
    (hexit : Call.exitNumber ∈ numbers) (hload : Resource.cellField.number ∈ numbers)
    (digest : Digest) (source : Source) :
    (findCellByDataHash digest source).Makes numbers := by
  have hquery : cellDataHash.resource.number ∈ numbers := hload
  rw [findCellByDataHash]
  exact Cursor.find_makes hexit hquery _ indexCount rfl

namespace Session

/-- The numbers of the calls that an action can make. -/
def Action.numbers : Action → List UInt64
  | loadTxHash => [Resource.txHash.number, Call.exitNumber]
  | loadScriptHash => [Resource.scriptHash.number, Call.exitNumber]
  | loadInto target .. => [target.resource.number, Call.exitNumber]
  | loadCode .. => [Call.loadCodeNumber, Call.exitNumber]
  | vmVersion => [Call.vmVersionNumber]
  | currentCycles => [Call.currentCyclesNumber]
  | exec .. => [Call.execNumber, Call.exitNumber]
  | debug _ | debugLoading .. => [Call.debugNumber]
  | exit _ | abort => [Call.exitNumber]
  | panic _ => [Call.debugNumber, Call.exitNumber]
  | loadScript => [Resource.script.number, Call.exitNumber]
  | loadTransaction => [Resource.transaction.number, Call.exitNumber]
  | ask query .. | collect query _ | count query _ => [query.resource.number, Call.exitNumber]
  | findCell .. => [Resource.cellField.number, Call.exitNumber]
  | rawWords number _ | rawLoad number .. => [number]
  | rawExec .. => [Call.execNumber]
  | rawDebug _ => [Call.debugNumber]

theorem Action.program_makes (action : Action) : action.program.Makes action.numbers := by
  have hown {number : UInt64} {rest : List UInt64} : number ∈ number :: rest := List.mem_cons_self
  have hexit {number : UInt64} : Call.exitNumber ∈ [number, Call.exitNumber] :=
    List.mem_cons_of_mem _ (List.mem_singleton_self _)
  cases action with
  | loadTxHash | loadScriptHash => exact (Program.loadDigest_makes hexit hown).map _
  | loadScript | loadTransaction => exact (Program.loadWhole_makes hexit hown).map _
  | loadInto target buffer offset =>
    apply (Program.load_makes hexit hown buffer offset).bind
    intro loaded
    cases loaded.answer <;> exact True.intro
  | loadCode buffer offset size index source =>
    apply (Program.loadCode_makes hexit hown buffer offset size index source).bind
    rintro ⟨answer, left⟩
    cases answer <;> exact True.intro
  | vmVersion | currentCycles => exact (Program.callWords_makes hown {}).map _
  | exec => exact (Program.exec_makes hexit hown _ _ _ _ _).map _
  | debug | debugLoading => exact (Program.debug_makes hown _).map _
  | exit | abort => exact Program.exit_makes hown _
  | panic message => exact Program.panic_makes hexit hown message
  | ask query index source => exact (query.load_makes hexit hown index source).map _
  | findCell digest source =>
    rw [program]
    split
    · exact (Query.findCellByDataHash_makes hexit hown _ source).map _
    · exact True.intro
  | collect query source => exact (query.collect_makes hexit hown source).map _
  | count query source => exact (query.count_makes hexit hown source).map _
  | rawWords number operands => exact (Program.callWords_makes hown operands).map _
  | rawLoad => exact (Program.loadWords_makes hown _ _ _ _ _).map _
  | rawExec => exact (Program.execWords_makes hown _ _ _ _ _).map _
  | rawDebug message =>
    have hrequest : (Program.request (.debug (Terminated.write message))).Makes
        [Call.debugNumber] := Program.request_makes hown
    exact hrequest.map _

theorem Move.program_makes (move : Move) (cursor : Cursor) :
    (move.program cursor).Makes [cursor.query.resource.number, Call.exitNumber] := by
  have hown : cursor.query.resource.number ∈ [cursor.query.resource.number, Call.exitNumber] :=
    List.mem_cons_self
  have hexit : Call.exitNumber ∈ [cursor.query.resource.number, Call.exitNumber] :=
    List.mem_cons_of_mem _ (List.mem_singleton_self _)
  cases move with
  | next => exact (Cursor.next_makes hexit hown rfl).map _
  | nth skip => exact (Cursor.nth_makes hexit hown skip rfl).map _
  | take limit => exact (Cursor.take_makes hexit hown limit rfl).map _

end Session

end ScriptHost
