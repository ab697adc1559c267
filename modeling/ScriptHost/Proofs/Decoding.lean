import ScriptHost.Proofs.Exits
import ScriptHost.Proofs.ForcedResult

/-! Loads that look at their result word. Such a load is the primitive call followed by a reading of
its word: both make the same first call and leave the same buffer, and a word that can be read
leaves the same host. -/

namespace ScriptHost

/-- A buffer after calls that were handed it, each reply being written over its start. -/
def Host.fill (host : Host) (buffer : Bytes) : List Call → Bytes
  | [] => buffer
  | call :: rest =>
    match host.answer call with
    | (.ok reply, left) => left.fill (buffer.overwrite reply.written) rest
    | (.error _, _) => buffer

namespace Host

variable {host left : Host} {call : Call} {reply : Reply} {fatal : Fatal}

theorem fill_of_reply (hanswer : host.answer call = (.ok reply, left)) (buffer : Bytes) :
    host.fill buffer [call] = buffer.overwrite reply.written := by
  simp only [fill, hanswer]

/-- Where no result is forced an exit does not come back. -/
theorem answer_exit (hf : host.forced = none) (code : Int8) :
    (host.answer (Program.exitCall code)).1 = .error (host.exitFatal code) := by
  rw [exitFatal]
  split
  · next hroom =>
    rw [answer_of_served hroom hf, hf, Program.exitCall, serve, serveWords, if_pos rfl,
      Program.exit_code_of_operand]
  · next hroom => rw [answer_of_overflow hroom]

/-- An exit behind a call that came back leaves the buffer as it is. -/
theorem fill_exit (hanswer : host.answer call = (.ok reply, left)) (buffer : Bytes) (code : Int8) :
    host.fill buffer [call, Program.exitCall code] = host.fill buffer [call] := by
  have hforced : left.forced = none := (answer_of_reply hanswer).2.2.2
  have hexit := answer_exit hforced code
  simp only [fill, hanswer]
  cases hlast : left.answer (Program.exitCall code) with
  | mk answer last =>
    rw [hlast] at hexit
    subst hexit
    rfl

end Host

namespace Program

/-- A result word is read as success, as the refusal that it is the code of, or not at all. -/
theorem check_of_unknown {word : UInt64} (hzero : word ≠ 0)
    (hcode : ∀ error : HostError, word ≠ error.code) : check word = abort := by
  rcases Status.word_cases word with h | ⟨error, h⟩ | h
  · exact absurd h hzero
  · exact absurd h (hcode error)
  · rw [check, Status.ofWord_of_five_le h]

end Program

namespace Session

variable {session : Session} {left : Host} {target : Target} {buffer : Bytes}
  {number offset index source field : UInt64} {reply : Reply} {fatal : Fatal}

/-- The primitive call as a step that looks at nothing. -/
theorem step_rawLoad_of_reply {call : Call}
    (hcall : call = .load number buffer.length offset index source field)
    (hanswer : session.host.answer call = (.ok reply, left)) :
    session.step (.perform (.rawLoad number buffer offset index source field)) =
      (⟨.ok (.word reply.result) {
          buffer := some (buffer.overwrite reply.written)
          length := some (reply.length.getD buffer.length) }, [call]⟩,
        { session with host := left }) := by
  subst hcall
  exact step_of_run_ok (Program.run_call_of_reply hanswer)

theorem step_rawLoad_of_fatal {call : Call}
    (hcall : call = .load number buffer.length offset index source field)
    (hanswer : session.host.answer call = (.error fatal, left)) :
    session.step (.perform (.rawLoad number buffer offset index source field)) =
      (⟨.fatal fatal, [call]⟩, { session with host := left }) := by
  subst hcall
  exact step_of_run_error (Program.run_call_of_fatal hanswer)

/-- What a load makes of the reply to its call. -/
def decodeLoad (buffer : Bytes) (reply : Reply) : Program Answer :=
  (Program.check reply.result).bind fun status =>
    match status with
    | .ok _ => .done (.ok (.number (reply.length.getD buffer.length))
        { buffer := some (buffer.overwrite reply.written) })
    | .error error => .done (.refused error { buffer := some (buffer.overwrite reply.written) })

theorem loadInto_program (target : Target) (buffer : Bytes) (offset : UInt64) :
    Action.program (.loadInto target buffer offset) =
      .call (.ofTarget target buffer.length offset) (decodeLoad buffer) := by
  change Program.call _ (fun reply => ((Program.check reply.result).bind _).bind _) = _
  congr 1
  funext reply
  rw [Program.bind_assoc, decodeLoad]
  congr 1
  funext status
  cases status <;> rfl

/-- A load as the reading of a word that the primitive call left with a length and a buffer. A word
that can be read adds nothing to the raw step, and any other word adds the call of an exit. -/
structure Decodes (typed raw : Record × Session) (word : UInt64) (length : Nat) (left : Bytes) :
    Prop where
  success : word = 0 →
    typed = (⟨.ok (.number length) { buffer := some left }, raw.1.trace⟩, raw.2)
  refusal : ∀ error : HostError, word = error.code →
    typed = (⟨.refused error { buffer := some left }, raw.1.trace⟩, raw.2)
  fault : word ≠ 0 → (∀ error : HostError, word ≠ error.code) →
    typed =
      (⟨.fatal (if raw.2.host.cycles + 500 ≤ 2 ^ 64 - 1 then .exited (-2) else .cycleOverflow),
          raw.1.trace ++ [Program.exitCall (-2)]⟩,
        { raw.2 with host := (raw.2.host.answer (Program.exitCall (-2))).2 })

theorem Decodes.trace_cases {typed raw : Record × Session} {word : UInt64} {length : Nat}
    {left : Bytes} (h : Decodes typed raw word length left) :
    typed.1.trace = raw.1.trace ∨ typed.1.trace = raw.1.trace ++ [Program.exitCall (-2)] := by
  by_cases hzero : word = 0
  · left
    rw [h.success hzero]
  · by_cases hcode : ∃ error : HostError, word = error.code
    · obtain ⟨error, hcode⟩ := hcode
      left
      rw [h.refusal error hcode]
    · right
      rw [h.fault hzero (not_exists.mp hcode)]

theorem step_loadInto_decodes {call : Call}
    (hcall : call = .ofTarget target buffer.length offset)
    (hanswer : session.host.answer call = (.ok reply, left)) (answer : Answer) :
    Decodes (session.step (.perform (.loadInto target buffer offset)))
      (⟨answer, [call]⟩, { session with host := left }) reply.result
      (reply.length.getD buffer.length) (buffer.overwrite reply.written) := by
  subst hcall
  have hrun : (Action.program (.loadInto target buffer offset)).run session.host =
      ((decodeLoad buffer reply).run left).precededBy (.ofTarget target buffer.length offset) := by
    rw [loadInto_program]
    exact Program.run_call_of_reply hanswer
  constructor
  · intro hzero
    rw [decodeLoad, hzero] at hrun
    exact step_of_run_ok hrun
  · intro error hcode
    rw [decodeLoad, hcode, Program.check_code] at hrun
    exact step_of_run_ok hrun
  · intro hzero hcode
    have hforced : left.forced = none := (Host.answer_of_reply hanswer).2.2.2
    have hexit := Host.exitFatal_of_unforced hforced (-2)
    rw [decodeLoad, Program.check_of_unknown hzero hcode, Program.run_bind, Program.abort,
      Program.run_exit, Program.abortCode, hexit] at hrun
    exact step_of_run_error hrun

/-- A load is the primitive call on its number and its words, and a reading of the word that comes
back. Whatever the host is, the first call is the same and the buffer is left the same. Success and
the refusals leave the same host, any other word is a fault that adds one exit, and a call that does
not come back stops both in the same way. -/
theorem loads_decode_primitive (session : Session) {target : Target}
    {number index source field : UInt64} (ht : target.HandsOver number index source field)
    (buffer : Bytes) (offset : UInt64) :
    let call := Call.load number buffer.length offset index source field
    let typed := session.step (.perform (.loadInto target buffer offset))
    let raw := session.step (.perform (.rawLoad number buffer offset index source field))
    raw.1.trace = [call] ∧
    typed.1.trace.head? = some call ∧
    session.host.fill buffer typed.1.trace = session.host.fill buffer raw.1.trace ∧
    ((∃ word length left,
        raw.1.answer = .ok (.word word) { buffer := some left, length := some length } ∧
        left = session.host.fill buffer raw.1.trace ∧ Decodes typed raw word length left) ∨
      ∃ reason, raw.1.answer = .fatal reason ∧ typed = raw) := by
  intro call typed raw
  have hcall : call = .ofTarget target buffer.length offset :=
    (ht.ofTarget_eq buffer.length offset).symm
  cases hanswer : session.host.answer call with
  | mk answer left =>
    cases answer with
    | error fatal =>
      have hraw : raw = (⟨.fatal fatal, [call]⟩, { session with host := left }) :=
        step_rawLoad_of_fatal rfl hanswer
      have htyped : typed = raw := by
        rw [hraw, hcall]
        rw [hcall] at hanswer
        apply step_of_run_error
        rw [loadInto_program]
        exact Program.run_call_of_fatal hanswer
      rw [htyped, hraw]
      exact ⟨rfl, rfl, rfl, Or.inr ⟨fatal, rfl, rfl⟩⟩
    | ok reply =>
      let length := reply.length.getD buffer.length
      let after := buffer.overwrite reply.written
      have hraw : raw = (⟨.ok (.word reply.result) { buffer := some after, length := some length },
          [call]⟩, { session with host := left }) := step_rawLoad_of_reply rfl hanswer
      have hdecodes : Decodes typed raw reply.result length after := by
        rw [hraw]
        exact step_loadInto_decodes hcall hanswer _
      have htrace : raw.1.trace = [call] := by rw [hraw]
      have hfill : after = session.host.fill buffer [call] :=
        (Host.fill_of_reply hanswer buffer).symm
      have hcalls := hdecodes.trace_cases
      rw [htrace] at hcalls
      refine ⟨htrace, ?_, ?_, Or.inl ⟨reply.result, length, after, ?_, ?_, hdecodes⟩⟩
      · rcases hcalls with h | h <;> rw [h] <;> rfl
      · rw [htrace]
        rcases hcalls with h | h
        · rw [h]
        · rw [h]
          exact Host.fill_exit hanswer buffer (-2)
      · rw [hraw]
      · rw [htrace, hfill]

/-- A forced word that means nothing comes back from a load of the script, whose buffer stays as it
is, and the load gives up. -/
theorem loads_decode_primitive_fault :
    let session : Session := { host := { forced := some 9, nextScript := some [1] } }
    Target.script.HandsOver 2052 0 0 0 ∧
      (session.step (.perform (.loadInto .script [5, 6] 0))).1.answer = .fatal (.exited (-2)) ∧
      (session.step (.perform (.loadInto .script [5, 6] 0))).1.trace =
        [.load 2052 2 0 0 0 0, Program.exitCall (-2)] := by
  intro session
  have hload := loads_decode_primitive session Target.HandsOver.script [5, 6] 0
  have hword : (session.step (.perform (.rawLoad 2052 [5, 6] 0 0 0 0))).1.answer =
      .ok (.word 9) { buffer := some [5, 6], length := some 2 } := rfl
  obtain ⟨htrace, -, -, ⟨word, length, left, hanswer, -, hdecodes⟩ | ⟨reason, hfatal, -⟩⟩ := hload
  · rw [hword] at hanswer
    obtain ⟨hvalue, -⟩ := Answer.ok.inj hanswer
    have hnine : word = 9 := (Value.word.inj hvalue).symm
    have hzero : word ≠ 0 := by
      rw [hnine]
      decide
    have hcode (error : HostError) : word ≠ error.code := by
      rw [hnine]
      cases error <;> decide
    have hroom : (session.step (.perform (.rawLoad 2052 [5, 6] 0 0 0 0))).2.host.cycles + 500 ≤
        2 ^ 64 - 1 := by
      decide +kernel
    have hfault := hdecodes.fault hzero hcode
    rw [if_pos hroom, htrace] at hfault
    rw [hfault]
    exact ⟨.script, rfl, rfl⟩
  · rw [hword] at hfatal
    cases hfatal

end Session

end ScriptHost
