import ScriptHost.Proofs.CharacterBytes
import ScriptHost.Proofs.Exits
import ScriptHost.Proofs.Keeping

/-! Printed messages. A step that prints does so with its first call, and no other step makes a call
that prints, so that the messages of a host tell which steps it has served. -/

namespace ScriptHost

namespace Host

variable {host left : Host} {call : Call}

theorem Keeps.messages (h : host.Keeps left) : left.messages = host.messages := by
  rw [h]

theorem serve_messages (h : ∀ memory, call ≠ .debug memory) :
    (host.serve call).2.messages = host.messages := by
  cases call with
  | load number capacity offset index source field =>
    simp only [serve]
    split
    · next resource _ =>
      simp only [serveLoad]
      split
      · obtain ⟨script, nextScript, hleft⟩ := host.afterLoad_frame resource
        rw [hleft]
      · rfl
    · rfl
  | debug memory => exact absurd rfl (h memory)
  | loadCode | exec | words => rfl

theorem answer_messages (h : ∀ memory, call ≠ .debug memory) :
    (host.answer call).2.messages = host.messages := by
  by_cases hserves : host.Serves
  · rw [answer_of_serves hserves, serve_messages h]
    rfl
  · exact (answer_of_not_serves hserves call).1.messages

end Host

namespace Terminated

/-- What stands in memory is read up to its own first zero, if it has one. -/
theorem read_write_eq (bytes : Bytes) : read (write bytes) = read bytes := by
  induction bytes with
  | nil => rfl
  | cons b rest ih =>
    simp only [read, write, List.cons_append, List.takeWhile_cons] at ih ⊢
    rw [ih]

end Terminated

namespace Program

/-- What is printed of a message. A zero character would end it in memory. -/
def printable (message : String) : String :=
  String.ofList (message.toList.map fun c => if c = '\x00' then '?' else c)

theorem toList_printable (message : String) :
    (printable message).toList = message.toList.map fun c => if c = '\x00' then '?' else c :=
  String.toList_ofList

theorem length_printable (message : String) : (printable message).length = message.length := by
  rw [← String.length_toList, toList_printable, List.length_map, String.length_toList]

theorem mask_encodeChar (c : Char) :
    ((String.utf8EncodeChar c).map fun b => if b = 0 then 0x3F else b) =
      String.utf8EncodeChar (if c = '\x00' then '?' else c) := by
  by_cases hc : c = '\x00'
  · rw [hc]
    decide
  · have hzero (b : UInt8) (hb : b ∈ String.utf8EncodeChar c) : b ≠ 0 := by
      rintro rfl
      exact hc (Utf8.zero_mem_encodeChar hb)
    calc ((String.utf8EncodeChar c).map fun b => if b = 0 then 0x3F else b)
        = (String.utf8EncodeChar c).map id :=
          List.map_congr_left fun b hb => if_neg (hzero b hb)
      _ = String.utf8EncodeChar c := List.map_id _
      _ = String.utf8EncodeChar (if c = '\x00' then '?' else c) := by rw [if_neg hc]

/-- To replace zero bytes is to replace zero characters. -/
theorem mask_encode (text : List Char) :
    ((Utf8.encode text).map fun b => if b = 0 then 0x3F else b) =
      Utf8.encode (text.map fun c => if c = '\x00' then '?' else c) := by
  simp only [Utf8.encode, List.map_flatMap, List.flatMap_map, mask_encodeChar]

theorem textAt_messageBytes (message : String) :
    Host.textAt (messageBytes message) = printable message := by
  let bytes := (Utf8.encode message.toList).map fun b => if b = 0 then 0x3F else b
  have hzero : 0 ∉ bytes := by
    intro hmem
    obtain ⟨b, -, hb⟩ := List.mem_map.mp hmem
    split at hb
    · cases hb
    · next hne => exact hne hb
  have hread : Terminated.read (messageBytes message) = bytes := Terminated.read_write hzero
  have hbytes : bytes = Utf8.encode (message.toList.map fun c => if c = '\x00' then '?' else c) :=
    mask_encode message.toList
  rw [Host.textAt, hread, hbytes, Utf8.decodeLossy_encode, printable]

/-- No call of the program prints. -/
def Silent {α : Type} : Program α → Prop
  | done _ => True
  | spin => True
  | call request next => (∀ memory, request ≠ .debug memory) ∧ ∀ reply, (next reply).Silent

section Runs

variable {α β : Type} {program : Program α} {numbers : List UInt64} {memory : Bytes}

theorem Makes.silent (h : program.Makes numbers) (hn : Call.debugNumber ∉ numbers) :
    program.Silent := by
  induction program with
  | done | spin => exact True.intro
  | call request next ih =>
    constructor
    · rintro memory rfl
      exact hn h.1
    · intro reply
      exact ih reply (h.2 reply)

theorem Silent.map (h : program.Silent) (f : α → β) :
    (program.bind fun value => done (f value)).Silent := by
  induction program with
  | done | spin => exact True.intro
  | call request next ih => exact ⟨h.1, fun reply => ih reply (h.2 reply)⟩

/-- A run of a silent program makes no call that prints, and leaves the messages as they were. -/
theorem Silent.run (h : program.Silent) (host : Host) :
    (∀ memory, .debug memory ∉ (program.run host).trace) ∧
      (program.run host).host.messages = host.messages := by
  induction program generalizing host with
  | done | spin => exact ⟨fun _ => List.not_mem_nil, rfl⟩
  | call request next ih =>
    have hfirst : (host.answer request).2.messages = host.messages := Host.answer_messages h.1
    rw [Program.run]
    cases hanswer : host.answer request with
    | mk answer left =>
      rw [hanswer] at hfirst
      cases answer with
      | error fatal =>
        refine ⟨?_, hfirst⟩
        intro memory hmem
        exact h.1 memory (List.mem_singleton.mp hmem).symm
      | ok reply =>
        obtain ⟨htrace, hmessages⟩ := ih reply (h.2 reply) left
        refine ⟨?_, hmessages.trans hfirst⟩
        intro memory hmem
        rcases List.mem_cons.mp hmem with heq | hrest
        · exact h.1 memory heq.symm
        · exact htrace memory hrest

/-- A program that opens with a call that prints makes no other, and leaves one more message if it
is served. -/
theorem Opens.run_debug (h : program.Opens (.debug memory)) (host : Host) :
    (∃ rest, (program.run host).trace = .debug memory :: rest ∧ ∀ other, .debug other ∉ rest) ∧
      (program.run host).host.messages =
        host.messages ++ if host.Serves then [Host.textAt memory] else [] := by
  constructor
  · cases h with
    | @call next hnext =>
      rw [Program.run]
      cases host.answer (.debug memory) with
      | mk answer left =>
        cases answer with
        | error fatal => exact ⟨[], rfl, fun _ => List.not_mem_nil⟩
        | ok reply =>
          have hsilent := (hnext reply).silent (by decide)
          exact ⟨_, rfl, (hsilent.run left).1⟩
  · let printed : Host := { host with messages := host.messages ++ [Host.textAt memory] }
    have hserved (hserves : host.Serves) : printed.Keeps (host.answer (.debug memory)).2 := by
      rw [Host.answer_of_serves hserves]
      rfl
    rw [(h.keeps_of_served hserved).messages]
    split
    · rfl
    · exact (List.append_nil _).symm

theorem debug_opens (message : String) :
    (debug message).Opens (.debug (messageBytes message)) :=
  (request_opens _).map _

/-- A panic whose message is dropped by a forced result exits all the same. -/
theorem outcome_panic_of_forced {word : UInt64} {host : Host} (h : host.forced = some word)
    (message : String) :
    ((panic message : Program α).run host).outcome =
      .error (if host.cycles + 1000 ≤ 2 ^ 64 - 1 then .exited panicCode else .cycleOverflow) := by
  let call := Call.debug (messageBytes message)
  have hpanic : (panic message : Program α) = .call call fun _ => exit panicCode := rfl
  by_cases hroom : host.cycles ≤ Host.payable
  · obtain ⟨reply, left, hanswer⟩ : ∃ reply left, host.answer call = (.ok reply, left) :=
      ⟨_, _, Host.answer_of_forced hroom h call⟩
    obtain ⟨-, -, hcycles, hforced⟩ := Host.answer_of_reply hanswer
    have hexit : left.cycles + 500 ≤ 2 ^ 64 - 1 ↔ host.cycles + 1000 ≤ 2 ^ 64 - 1 := by
      rw [hcycles, Host.cyclesPerCall]
    rw [hpanic, run_call_of_reply hanswer, run_exit, Host.exitFatal_of_unforced hforced]
    simp only [Run.precededBy, hexit]
  · have hfull : ¬ host.cycles + 1000 ≤ 2 ^ 64 - 1 := by
      rw [Host.payable_iff] at hroom
      omega
    rw [if_neg hfull, hpanic, run_call_of_fatal (Host.answer_of_overflow hroom call)]

theorem callWords_silent (number : UInt64) (operands : Operands) :
    (callWords number operands).Silent := by
  constructor
  · exact fun _ => Call.noConfusion
  · intro reply
    change Silent (if number = Call.exitNumber then spin else done reply.result)
    split <;> exact True.intro

end Runs

end Program

namespace Session

open Program (printable)

/-- What an action prints, if the host serves the call that it begins with. -/
def Action.printed? : Action → Option String
  | debug message | panic message => some (printable message)
  | debugLoading index source message =>
    some (printable ("loading " ++ toString index ++ " from " ++ source.name ++ ": " ++ message))
  | rawDebug message => some (Host.textAt message)
  | _ => none

/-- What a step prints, if the host serves the call that it begins with. -/
def Step.printed? : Step → Option String
  | perform action => action.printed?
  | _ => none

/-- What steps print, oldest first. Each that prints does so if the host it finds serves its
call. -/
def printed (session : Session) : List Step → List String
  | [] => []
  | step :: rest =>
    (if session.host.Serves then step.printed?.toList else []) ++
      printed (session.step step).2 rest

theorem Action.opens_of_printed {action : Action} {text : String}
    (h : action.printed? = some text) :
    ∃ memory, action.program.Opens (.debug memory) ∧ Host.textAt memory = text := by
  cases action with
  | debug message =>
    rw [← Option.some.inj h]
    exact ⟨_, (Program.debug_opens message).map _, Program.textAt_messageBytes message⟩
  | debugLoading index source message =>
    rw [← Option.some.inj h]
    exact ⟨_, (Program.debug_opens _).map _, Program.textAt_messageBytes _⟩
  | panic message =>
    rw [← Option.some.inj h]
    exact ⟨_, Program.panic_opens message, Program.textAt_messageBytes message⟩
  | rawDebug message =>
    rw [← Option.some.inj h]
    refine ⟨_, (Program.request_opens _).map _, ?_⟩
    rw [Host.textAt, Terminated.read_write_eq, Host.textAt]
  | _ => cases h

theorem debug_notMem (resource : Resource) :
    Call.debugNumber ∉ [resource.number, Call.exitNumber] := by
  cases resource <;> decide

theorem Action.silent_of_not_printed {action : Action} (h : action.printed? = none) :
    action.program.Silent := by
  have hmakes := action.program_makes
  cases action with
  | debug | debugLoading | panic | rawDebug => cases h
  | loadTxHash | loadScriptHash | loadScript | loadTransaction =>
    exact hmakes.silent (debug_notMem _)
  | loadInto | ask | collect | count | findCell => exact hmakes.silent (debug_notMem _)
  | rawWords number operands => exact (Program.callWords_silent number operands).map _
  | rawLoad number buffer offset index source field =>
    exact ⟨fun _ => Call.noConfusion, fun _ => True.intro⟩
  | loadCode | vmVersion | currentCycles | exec | exit | abort | rawExec =>
    apply hmakes.silent
    rw [Action.numbers]
    decide

variable {session : Session} {step : Step} {text : String}

theorem programOf_opens (h : step.printed? = some text) :
    ∃ memory, (session.programOf step).Opens (.debug memory) ∧ Host.textAt memory = text := by
  cases step with
  | perform action =>
    obtain ⟨memory, hopens, htext⟩ := Action.opens_of_printed h
    exact ⟨memory, hopens.map _, htext⟩
  | _ => cases h

theorem programOf_silent (h : step.printed? = none) : (session.programOf step).Silent := by
  cases step with
  | setup | observe | openCursor => exact True.intro
  | perform action => exact (Action.silent_of_not_printed h).map _
  | advance id move =>
    rw [programOf]
    cases session.cursor? id with
    | none => exact True.intro
    | some cursor => exact ((move.program_makes cursor).silent (debug_notMem _)).map _

theorem Setup.apply_messages (change : Setup) (host : Host) :
    (change.apply host).messages = host.messages := by
  cases change <;> rfl

/-- A step makes the call that prints just once and before all others if it prints, and else does
not make it. -/
theorem trace_of_step (session : Session) (step : Step) :
    (∀ text, step.printed? = some text → ∃ memory rest,
      (session.step step).1.trace = .debug memory :: rest ∧ Host.textAt memory = text ∧
        ∀ other, .debug other ∉ rest) ∧
    (step.printed? = none → ∀ memory, .debug memory ∉ (session.step step).1.trace) := by
  rw [(session.step_follows step).trace_eq]
  constructor
  · intro text h
    obtain ⟨memory, hopens, htext⟩ := programOf_opens h
    obtain ⟨rest, htrace, hrest⟩ := (hopens.run_debug session.host).1
    exact ⟨memory, rest, htrace, htext, hrest⟩
  · intro h
    exact ((programOf_silent h).run session.host).1

theorem step_messages (session : Session) (step : Step) :
    (session.step step).2.host.messages = session.host.messages ++
      if session.host.Serves then step.printed?.toList else [] := by
  rcases session.step_cases step with ⟨change, rfl⟩ | ⟨-, hhost⟩
  · calc (change.apply session.host).messages
        = session.host.messages := change.apply_messages session.host
      _ = session.host.messages ++ if session.host.Serves then [] else [] := by
          rw [ite_self, List.append_nil]
  · rw [hhost]
    cases hprinted : step.printed? with
    | none =>
      rw [((programOf_silent hprinted).run session.host).2, Option.toList_none, ite_self,
        List.append_nil]
    | some text =>
      obtain ⟨memory, hopens, rfl⟩ := programOf_opens hprinted
      rw [(hopens.run_debug session.host).2]
      rfl

theorem run_messages (session : Session) (steps : List Step) :
    (session.run steps).2.host.messages = session.host.messages ++ session.printed steps := by
  induction steps generalizing session with
  | nil => exact (List.append_nil _).symm
  | cons step rest ih =>
    let left := (session.step step).2
    calc (session.run (step :: rest)).2.host.messages
        = left.host.messages ++ left.printed rest := ih left
      _ = session.host.messages ++ session.printed (step :: rest) := by
          rw [session.step_messages step, printed, List.append_assoc]

/-- The messages of a host are those of the steps that print and are served, each whole and in the
order of the steps. To print is the first call of such a step, and of no other. A panic whose
message is dropped by a forced result exits all the same. -/
theorem messages_arrive (session : Session) (steps : List Step) :
    (session.run steps).2.host.messages = session.host.messages ++ session.printed steps ∧
    (∀ message : String,
      (printable message).toList = message.toList.map (fun c => if c = '\x00' then '?' else c) ∧
      (printable message).length = message.length) ∧
    (∀ step : Step,
      (∀ text, step.printed? = some text → ∃ memory rest,
        (session.step step).1.trace = .debug memory :: rest ∧ Host.textAt memory = text ∧
          ∀ other, .debug other ∉ rest) ∧
      (step.printed? = none → ∀ memory, .debug memory ∉ (session.step step).1.trace)) ∧
    (∀ message word, session.host.forced = some word →
      let panic := session.step (.perform (.panic message))
      panic.2.host.messages = session.host.messages ∧
      panic.1.answer =
        if session.host.cycles + 1000 ≤ 2 ^ 64 - 1 then .fatal (.exited (-1))
        else .fatal .cycleOverflow) := by
  refine ⟨session.run_messages steps, ?_, session.trace_of_step, ?_⟩
  · intro message
    exact ⟨Program.toList_printable message, Program.length_printable message⟩
  · intro message word h
    constructor
    · have hserves : ¬ session.host.Serves := by
        rintro ⟨hforced, -⟩
        cases h.symm.trans hforced
      rw [session.step_messages, if_neg hserves, List.append_nil]
    · have houtcome : ((Action.panic message).program.run session.host).outcome = _ :=
        Program.outcome_panic_of_forced h message
      rw [← apply_ite Answer.fatal]
      exact (session.perform_fatal_iff (.panic message) _).mpr houtcome

/-- The message of the first panic is dropped, and those of the steps behind it are not. -/
theorem messages_arrive_behind_drop :
    let session : Session := { host := { forced := some 7 } }
    let steps : List Step :=
      [.perform (.panic "lost"), .perform (.debug "a\x00é"), .perform .vmVersion,
        .perform (.debugLoading 3 .input "cell"), .perform (.rawDebug [0x62, 0xFF]),
        .perform (.panic "")]
    session.host.forced = some 7 ∧
      (session.run steps).2.host.messages =
        ["a?é", "loading 3 from Input: cell", "b\uFFFD", ""] ∧
      (session.step (.perform (.panic "lost"))).1.answer = .fatal (.exited (-1)) := by
  intro session steps
  obtain ⟨hmessages, -, -, hdropped⟩ := session.messages_arrive steps
  have hforced : session.host.forced = some 7 := rfl
  refine ⟨hforced, ?_, (hdropped "lost" 7 hforced).2.trans (if_pos (by decide))⟩
  rw [hmessages]
  decide +kernel

end Session

end ScriptHost
