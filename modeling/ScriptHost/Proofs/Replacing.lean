import ScriptHost.Proofs.Keeping
import ScriptHost.Proofs.Packing
import ScriptHost.Proofs.TextRoundTrip

/-! Replacing the running program. A request is recorded the way it was made, whatever becomes of
it, and its window and the size of what is found at its place decide how it ends. -/

namespace ScriptHost

namespace Host

variable {bytes : Bytes} {arguments : List Bytes}

/-- Bytes without a zero are read from memory as they were written, and as text as they are. -/
theorem textAt_write (h : 0 ∉ bytes) :
    textAt (Terminated.write bytes) = String.ofList (Utf8.decodeLossy bytes) := by
  rw [textAt, Terminated.read_write h]

theorem map_textAt_write (h : ∀ argument ∈ arguments, 0 ∉ argument) :
    (arguments.map Terminated.write).map textAt =
      arguments.map fun argument => String.ofList (Utf8.decodeLossy argument) := by
  rw [List.map_map]
  apply List.map_congr_left
  intro argument hargument
  exact textAt_write (h argument hargument)

end Host

/-- A request to replace the running program. No argument holds the zero that ends it in memory. -/
structure Replacement where
  index : UInt64
  source : UInt64
  place : UInt64
  bounds : Bounds
  arguments : List Bytes
  zero_notMem : ∀ argument ∈ arguments, 0 ∉ argument

namespace Replacement

open Session (Action Answer)

variable {request : Replacement} {host left : Host} {holdings : Holdings} {program : Bytes}
  {action : Action} {answer missing outside : Answer}

/-- The call that makes a request. -/
def call (request : Replacement) : Call :=
  .exec request.index request.source request.place request.bounds.toWord
    (request.arguments.map Terminated.write)

/-- The arguments of a request as text. -/
def texts (request : Replacement) : List String :=
  request.arguments.map fun argument => String.ofList (Utf8.decodeLossy argument)

/-- The host that has recorded a request and has been charged for it. -/
def recorded (request : Replacement) (host : Host) : Host :=
  { host.spend [request.call] with
    execs := host.execs ++
      [⟨request.index, request.source, request.place, request.bounds, request.texts⟩] }

theorem textAt_arguments (request : Replacement) :
    (request.arguments.map Terminated.write).map Host.textAt = request.texts :=
  Host.map_textAt_write request.zero_notMem

theorem getElem?_texts {i : Nat} {text : String}
    (h : request.arguments[i]? = some (Utf8.encode text.toList)) :
    request.texts[i]? = some text := by
  rw [texts, List.getElem?_map, h, Option.map_some, Utf8.decodeLossy_encode, String.ofList_toList]

/-- What a host replies to a request that it serves. -/
def reply (request : Replacement) (holdings : Holdings) : Except Fatal Reply :=
  match holdings.program? request.index request.source request.place with
  | none => .ok { result := HostError.itemMissing.code }
  | some program =>
    if request.bounds.Fits program.length then .error .replaced
    else .ok { result := HostError.sliceOutOfBound.code }

theorem answer_call (hserves : host.Serves) (request : Replacement) :
    host.answer request.call = (request.reply host.holdings, request.recorded host) := by
  rw [Host.answer_of_serves hserves]
  simp only [call, Host.serve, Host.serveExec, Bounds.ofWord_toWord, textAt_arguments]
  rfl

/-- The actions that make a request, each with what it answers if nothing is found, and if the
window does not lie inside what is found. -/
inductive MadeBy (request : Replacement) : Action → (missing outside : Answer) → Prop where
  | exec {source : Source} {place : Place} (hsource : request.source = source.word)
      (hplace : request.place = place.word) :
      MadeBy request (.exec request.index source place request.bounds request.arguments)
        (.refused .itemMissing {}) (.refused .sliceOutOfBound {})
  | rawExec :
      MadeBy request
        (.rawExec request.index request.source request.place request.bounds.toWord
          request.arguments)
        (.value (.word 2)) (.value (.word 3))

/-- How an action ends that makes a request. -/
inductive Ends (request : Replacement) (holdings : Holdings) (missing outside : Answer) :
    Answer → Prop where
  | missing (hprogram : holdings.program? request.index request.source request.place = none) :
      Ends request holdings missing outside missing
  | replaced {program : Bytes}
      (hprogram : holdings.program? request.index request.source request.place = some program)
      (hfits : request.bounds.Fits program.length) :
      Ends request holdings missing outside (.fatal .replaced)
  | outside {program : Bytes}
      (hprogram : holdings.program? request.index request.source request.place = some program)
      (hout : ¬ request.bounds.Fits program.length) :
      Ends request holdings missing outside outside

namespace Ends

variable (h : request.Ends holdings missing outside answer)
include h

theorem eq_missing
    (hnone : holdings.program? request.index request.source request.place = none) :
    answer = missing := by
  cases h with
  | missing => rfl
  | replaced hprogram | outside hprogram => cases hprogram.symm.trans hnone

theorem eq_replaced
    (hsome : holdings.program? request.index request.source request.place = some program)
    (hfits : request.bounds.Fits program.length) : answer = .fatal .replaced := by
  cases h with
  | missing hprogram => cases hprogram.symm.trans hsome
  | replaced => rfl
  | outside hprogram hout =>
    obtain rfl := Option.some.inj (hprogram.symm.trans hsome)
    exact absurd hfits hout

theorem eq_outside
    (hsome : holdings.program? request.index request.source request.place = some program)
    (hout : ¬ request.bounds.Fits program.length) : answer = outside := by
  cases h with
  | missing hprogram => cases hprogram.symm.trans hsome
  | replaced hprogram hfits =>
    obtain rfl := Option.some.inj (hprogram.symm.trans hsome)
    exact absurd hfits hout
  | outside => rfl

end Ends

/-- The program of an action that makes a request is over once the request is refused. -/
theorem MadeBy.exists_program (h : request.MadeBy action missing outside) :
    ∃ next : Reply → Program Answer, action.program = .call request.call next ∧
      next { result := HostError.itemMissing.code } = .done missing ∧
      next { result := HostError.sliceOutOfBound.code } = .done outside := by
  cases h with
  | exec hsource hplace =>
    rw [call, hsource, hplace]
    exact ⟨_, rfl, rfl, rfl⟩
  | rawExec => exact ⟨_, rfl, rfl, rfl⟩

/-- A host that serves a request records it in every case. -/
theorem MadeBy.step_ends (h : request.MadeBy action missing outside) (session : Session)
    (hserves : session.host.Serves) :
    ∃ answer, request.Ends session.host.holdings missing outside answer ∧
      session.step (.perform action) =
        (⟨answer, [request.call]⟩, { session with host := request.recorded session.host }) := by
  obtain ⟨next, hprogram, hmissing, houtside⟩ := h.exists_program
  have hanswer := answer_call hserves request
  cases hfound : session.host.holdings.program? request.index request.source request.place with
  | none =>
    refine ⟨missing, .missing hfound, ?_⟩
    simp only [reply, hfound] at hanswer
    apply Session.step_of_run_ok
    rw [hprogram, Program.run_call_of_reply hanswer, hmissing]
    rfl
  | some program =>
    by_cases hfits : request.bounds.Fits program.length
    · refine ⟨_, .replaced hfound hfits, ?_⟩
      simp only [reply, hfound, if_pos hfits] at hanswer
      apply Session.step_of_run_error
      rw [hprogram, Program.run_call_of_fatal hanswer]
    · refine ⟨outside, .outside hfound hfits, ?_⟩
      simp only [reply, hfound, if_neg hfits] at hanswer
      apply Session.step_of_run_ok
      rw [hprogram, Program.run_call_of_reply hanswer, houtside]
      rfl

theorem Ends.ne_exited (h : request.Ends holdings missing outside answer)
    (hmade : request.MadeBy action missing outside) (code : Int8) :
    answer ≠ .fatal (.exited code) := by
  rintro rfl
  cases h with
  | missing | outside => cases hmade

end Replacement

namespace Session

/-- A request to replace the program is recorded with its window and with its arguments as text,
whatever is found at its place. It is refused as missing where nothing is found, replaces the
program where its window lies inside what is found, and is refused as out of bounds in every other
case. -/
theorem replacement_is_decided (session : Session) (request : Replacement) {action : Action}
    {missing outside : Answer} (h : request.MadeBy action missing outside)
    (hf : session.host.forced = none) (hc : session.host.cycles + 500 ≤ 2 ^ 64 - 1) :
    let record := (session.step (.perform action)).1
    let left := (session.step (.perform action)).2
    let bounds := request.bounds
    let texts := request.arguments.map fun argument => String.ofList (Utf8.decodeLossy argument)
    let program? :=
      if request.place = 1 then session.host.holdings.witnesses.get? request.source request.index
      else (session.host.holdings.cells.get? request.source request.index).map fun cell => cell.data
    let stop (size : Nat) :=
      if bounds.length = 0 then size else bounds.offset.toNat + bounds.length.toNat
    left = { session with host := { session.host with
      calls := session.host.calls ++ [2043]
      cycles := session.host.cycles + 500
      execs := session.host.execs ++
        [⟨request.index, request.source, request.place, bounds, texts⟩] } } ∧
    texts.length = request.arguments.length ∧
    (∀ (i : Nat) (text : String),
      request.arguments[i]? = some (Utf8.encode text.toList) → texts[i]? = some text) ∧
    (program? = none → record.answer = missing) ∧
    (∀ program, program? = some program →
      (bounds.offset.toNat ≤ stop program.length ∧ stop program.length ≤ program.length →
        record.answer = .fatal .replaced ∧ Fatal.message .replaced = "Mocked exec called") ∧
      (¬ (bounds.offset.toNat ≤ stop program.length ∧ stop program.length ≤ program.length) →
        record.answer = outside)) ∧
    record.trace = [.exec request.index request.source request.place bounds.toWord
      (request.arguments.map fun argument => argument ++ [0])] ∧
    ∀ code, record.answer ≠ .fatal (.exited code) := by
  intro record left bounds texts program? stop
  obtain ⟨answer, hends, hstep⟩ := h.step_ends session ⟨hf, hc⟩
  have hrecord : record = ⟨answer, [request.call]⟩ := congrArg Prod.fst hstep
  have hleft : left = { session with host := request.recorded session.host } :=
    congrArg Prod.snd hstep
  rw [hrecord, hleft]
  refine ⟨rfl, List.length_map _, ?_, hends.eq_missing, ?_, rfl, hends.ne_exited h⟩
  · intro i text htext
    exact Replacement.getElem?_texts htext
  · intro program hprogram
    refine ⟨?_, hends.eq_outside hprogram⟩
    intro hfits
    exact ⟨hends.eq_replaced hprogram hfits, rfl⟩

/-- A window of three bytes at offset one reaches one byte beyond a witness of three. The first
argument is the letter `é`, and the second is a byte that begins no character. -/
theorem replacement_is_decided_outside :
    let session : Session :=
      { host := { holdings := { witnesses := ⟨[(1, [1, 2, 3])]⟩ } } }
    let request : Replacement := ⟨0, 1, 1, ⟨1, 3⟩, [[0xC3, 0xA9], [0xFF]], by decide⟩
    let step := session.step (.perform (.exec 0 .input .witness ⟨1, 3⟩ [[0xC3, 0xA9], [0xFF]]))
    (request.MadeBy (.exec 0 .input .witness ⟨1, 3⟩ [[0xC3, 0xA9], [0xFF]])
        (.refused .itemMissing {}) (.refused .sliceOutOfBound {}) ∧
      session.host.forced = none ∧ session.host.cycles + 500 ≤ 2 ^ 64 - 1) ∧
    step.1.answer = .refused .sliceOutOfBound {} ∧
    step.2.host.execs = [⟨0, 1, 1, ⟨1, 3⟩, ["é", "\uFFFD"]⟩] := by
  intro session request step
  have hmade : request.MadeBy (.exec 0 .input .witness ⟨1, 3⟩ [[0xC3, 0xA9], [0xFF]])
      (.refused .itemMissing {}) (.refused .sliceOutOfBound {}) := .exec rfl rfl
  have hc : session.host.cycles + 500 ≤ 2 ^ 64 - 1 := by decide
  obtain ⟨hleft, -, -, -, hdecided, -, -⟩ := session.replacement_is_decided request hmade rfl hc
  refine ⟨⟨hmade, rfl, hc⟩, (hdecided [1, 2, 3] rfl).2 (by decide), ?_⟩
  rw [hleft]
  rfl

end Session

end ScriptHost
