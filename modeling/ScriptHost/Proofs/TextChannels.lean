import ScriptHost.Proofs.DamagedText
import ScriptHost.Proofs.Printing
import ScriptHost.Proofs.Replacing

/-! Bytes that reach the host as text, as a message or as an argument. Both ways replace the same
damaged parts, and what they give can be sent again without a further loss. -/

namespace ScriptHost

namespace Program

theorem printable_of_notMem {text : List Char} (h : '\x00' ∉ text) :
    printable (String.ofList text) = String.ofList text := by
  have hkept (c : Char) (hc : c ∈ text) : c ≠ '\x00' := by
    rintro rfl
    exact h hc
  have hsame : (text.map fun c => if c = '\x00' then '?' else c) = text.map id :=
    List.map_congr_left fun c hc => if_neg (hkept c hc)
  rw [printable, String.toList_ofList, hsame, List.map_id]

end Program

namespace Session

variable {session : Session} {bytes : Bytes} {arguments : List Bytes}

theorem step_print (hserves : session.host.Serves) {step : Step} {text : String}
    (h : step.printed? = some text) :
    (session.step step).2.host.messages = session.host.messages ++ [text] := by
  rw [session.step_messages step, if_pos hserves, h, Option.toList_some]

theorem step_rawDebug (hserves : session.host.Serves) (h : 0 ∉ bytes) :
    (session.step (.perform (.rawDebug bytes))).2.host.messages =
      session.host.messages ++ [String.ofList (Utf8.decodeLossy bytes)] := by
  have htext : Host.textAt bytes = String.ofList (Utf8.decodeLossy bytes) := by
    rw [Host.textAt, ← Terminated.read_write_eq, Terminated.read_write h]
  rw [← htext]
  exact step_print hserves rfl

theorem step_debug_again (hserves : session.host.Serves) (h : 0 ∉ bytes) :
    (session.step (.perform (.debug (String.ofList (Utf8.decodeLossy bytes))))).2.host.messages =
      session.host.messages ++ [String.ofList (Utf8.decodeLossy bytes)] := by
  have hprintable := Program.printable_of_notMem (Utf8.zero_notMem_decodeLossy h)
  apply step_print hserves
  exact congrArg some hprintable

/-- An action that opens with a request for another program records it, whatever comes of it. -/
theorem step_records (hserves : session.host.Serves) {action : Action}
    {index source place bounds : UInt64} (h : action.program.Opens
      (.exec index source place bounds (arguments.map Terminated.write)))
    (hzero : ∀ argument ∈ arguments, 0 ∉ argument) :
    (session.step (.perform action)).2.host.execs = session.host.execs ++
      [⟨index, source, place, .ofWord bounds,
        arguments.map fun argument => String.ofList (Utf8.decodeLossy argument)⟩] := by
  have hkeeps := h.keeps session.host
  rw [Host.answer_of_serves hserves, Host.Keeps] at hkeeps
  rw [← Host.map_textAt_write hzero]
  exact congrArg Host.execs hkeeps

/-- The host reads a printed byte string and an argument as the same text. In it every damaged part
is one replacement, and the rest is whole: undamaged text comes back, whatever damage is beside it,
and the text is printed again as it is. -/
theorem damage_stays_apart (session : Session) (hf : session.host.forced = none)
    (hc : session.host.cycles + 500 ≤ 2 ^ 64 - 1) :
    let lossy (bytes : Bytes) := String.ofList (Utf8.decodeLossy bytes)
    let left (action : Action) := (session.step (.perform action)).2.host
    (∀ bytes, 0 ∉ bytes →
      (left (.rawDebug bytes)).messages = session.host.messages ++ [lossy bytes]) ∧
    (∀ index source place bounds arguments, (∀ argument ∈ arguments, 0 ∉ argument) →
      (left (.exec index source place bounds arguments)).execs = session.host.execs ++
        [⟨index, source.word, place.word, bounds, arguments.map lossy⟩]) ∧
    (∀ index source place bounds arguments, (∀ argument ∈ arguments, 0 ∉ argument) →
      (left (.rawExec index source place bounds arguments)).execs = session.host.execs ++
        [⟨index, source, place, .ofWord bounds, arguments.map lossy⟩]) ∧
    (∀ bytes text, Utf8.Reads bytes text ↔ lossy bytes = String.ofList text) ∧
    (∀ text, Utf8.encode (lossy (Utf8.encode text)).toList = Utf8.encode text) ∧
    (∀ bytes, 0 ∉ bytes →
      (left (.debug (lossy bytes))).messages = session.host.messages ++ [lossy bytes]) ∧
    (∀ before text after, text ≠ [] →
      lossy (before ++ Utf8.encode text ++ after) =
        lossy before ++ String.ofList text ++ lossy after) := by
  intro lossy left
  have hserves : session.host.Serves := ⟨hf, hc⟩
  refine ⟨?_, ?_, ?_, ?_, ?_, ?_, ?_⟩
  · intro bytes hzero
    exact step_rawDebug hserves hzero
  · intro index source place bounds arguments hzero
    have hopens : (Action.exec index source place bounds arguments).program.Opens _ :=
      (Program.exec_opens index source place bounds arguments).map _
    have hrecords := step_records hserves hopens hzero
    rw [Bounds.ofWord_toWord] at hrecords
    exact hrecords
  · intro index source place bounds arguments hzero
    exact step_records hserves ((Program.request_opens _).map _ |>.map _) hzero
  · intro bytes text
    rw [Utf8.reads_iff]
    constructor
    · exact congrArg String.ofList
    · exact String.ofList_inj.mp
  · intro text
    rw [String.toList_ofList, Utf8.decodeLossy_encode]
  · intro bytes hzero
    exact step_debug_again hserves hzero
  · intro before text after htext
    calc lossy (before ++ Utf8.encode text ++ after)
        = String.ofList (Utf8.decodeLossy before ++ text ++ Utf8.decodeLossy after) :=
          congrArg String.ofList (Utf8.decodeLossy_append_encode before htext after)
      _ = lossy before ++ String.ofList text ++ lossy after := by
          rw [String.ofList_append, String.ofList_append]

/-- The letter `é` between a character that breaks off and a byte that begins none. -/
theorem damage_stays_apart_cut :
    let session : Session := {}
    let before : Bytes := [0x61, 0xE2, 0x82]
    let after : Bytes := [0x80, 0x62]
    let bytes := before ++ Utf8.encode ['é'] ++ after
    (session.host.forced = none ∧ session.host.cycles + 500 ≤ 2 ^ 64 - 1 ∧ 0 ∉ bytes) ∧
      (session.step (.perform (.rawDebug bytes))).2.host.messages = ["a\uFFFDé\uFFFDb"] ∧
      (session.step (.perform (.rawExec 0 1 0 0 [bytes]))).2.host.execs =
        [⟨0, 1, 0, ⟨0, 0⟩, ["a\uFFFDé\uFFFDb"]⟩] := by
  intro session before after bytes
  have hc : session.host.cycles + 500 ≤ 2 ^ 64 - 1 := by decide
  have hzero : 0 ∉ bytes := by decide
  obtain ⟨hprinted, -, hrecorded, -, -, -, hapart⟩ := session.damage_stays_apart rfl hc
  have htext : String.ofList (Utf8.decodeLossy bytes) = "a\uFFFDé\uFFFDb" :=
    (hapart before ['é'] after (List.cons_ne_nil _ _)).trans (by decide)
  refine ⟨⟨rfl, hc, hzero⟩, ?_, ?_⟩
  · exact (hprinted bytes hzero).trans (congrArg (fun text => [text]) htext)
  · have hrecord := hrecorded 0 1 0 0 [bytes] (List.forall_mem_singleton.mpr hzero)
    have hsame (text : String) (h : text = "a\uFFFDé\uFFFDb") :
        [(⟨0, 1, 0, .ofWord 0, [text]⟩ : ExecRecord)] =
          [⟨0, 1, 0, ⟨0, 0⟩, ["a\uFFFDé\uFFFDb"]⟩] := by
      rw [h]
      rfl
    exact hrecord.trans (hsame _ htext)

end Session

end ScriptHost
