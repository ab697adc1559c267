import ScriptHost.Call
import ScriptHost.Fatal
import ScriptHost.Host.Basic
import ScriptHost.Text.Terminated
import ScriptHost.Text.Utf8

/-!
How a host answers a call: it notes the number, charges the cycles, and then gives a forced result
or serves the call.
-/

namespace ScriptHost

namespace Host

/-- The text that starts at an address: up to its first zero, with damaged characters replaced. -/
def textAt (memory : Bytes) : String :=
  String.ofList (Utf8.decodeLossy (Terminated.read memory))

/-- The answer to a load: the item's part from the offset on that fits, and the item's length. -/
def deliver (item : Bytes) (capacity : Nat) (offset : UInt64) : Reply :=
  { result := 0
    written := Bytes.window item offset.toNat capacity
    length := some item.length }

/-- Serves a load. -/
def serveLoad (host : Host) (resource : Resource) (capacity : Nat)
    (offset index source field : UInt64) : Reply × Host :=
  match host.holdings.select resource index source field with
  | .ok item => (deliver item capacity offset, host.afterLoad resource)
  -- A refused load writes nothing.
  | .error error => ({ result := error.code }, host)

/-- Serves a load of cell data as code. -/
def serveCode (host : Host) (capacity : Nat) (offset size index source : UInt64) : Reply :=
  match host.holdings.cells.get? source index with
  | none => { result := HostError.itemMissing.code }
  | some cell =>
    -- The window has to lie inside the data and fit the buffer, which is then written to its end.
    if offset.toNat + size.toNat ≤ cell.data.length ∧ size.toNat ≤ capacity then
      { result := 0
        written := Bytes.window cell.data offset.toNat size.toNat
          ++ Bytes.zeros (capacity - size.toNat) }
    else { result := HostError.sliceOutOfBound.code }

/-- Serves a request to replace the program, which comes back only when it fails. -/
def serveExec (host : Host) (index source place bounds : UInt64) (arguments : List Bytes) :
    Except Fatal Reply × Host :=
  let window := Bounds.ofWord bounds
  let request : ExecRecord := ⟨index, source, place, window, arguments.map textAt⟩
  let answer := match host.holdings.program? index source place with
    | none => .ok { result := HostError.itemMissing.code }
    | some program =>
      if window.Fits program.length then .error .replaced
      else .ok { result := HostError.sliceOutOfBound.code }
  -- The request is recorded whether or not its target is found.
  (answer, { host with execs := host.execs ++ [request] })

/-- Serves a call on words alone. -/
def serveWords (host : Host) (number : UInt64) (operands : Operands) : Except Fatal Reply :=
  -- The exit code is the lowest byte of its operand.
  if number = Call.exitNumber then .error (.exited operands.a0.toUInt8.toInt8)
  else if number = Call.vmVersionNumber then .ok { result := host.vmVersion }
  else if number = Call.currentCyclesNumber then .ok { result := UInt64.ofNat host.cycles }
  else .error (.unknownNumber number)

def serve (host : Host) : Call → Except Fatal Reply × Host
  | .load number capacity offset index source field =>
    match Resource.ofNumber? number with
    | some resource =>
      let (reply, host) := host.serveLoad resource capacity offset index source field
      (.ok reply, host)
    | none => (.error (.unknownNumber number), host)
  | .loadCode capacity offset size index source =>
    (.ok (host.serveCode capacity offset size index source), host)
  | .exec index source place bounds arguments =>
    host.serveExec index source place bounds arguments
  | .debug memory =>
    (.ok { result := 0 }, { host with messages := host.messages ++ [textAt memory] })
  | .words number operands => (host.serveWords number operands, host)

/-- Answers a call. -/
def answer (host : Host) (call : Call) : Except Fatal Reply × Host :=
  -- The number is noted even when the charge does not fit the counter, but a forced result is used
  -- up only by a call that was charged.
  let noted := host.note call.number
  if host.cycles ≤ payable then
    match host.forced with
    | some result => (.ok { result }, { noted.charge with forced := none })
    | none => noted.charge.serve call
  else (.error .cycleOverflow, noted)

theorem answer_of_overflow {host : Host} (h : ¬ host.cycles ≤ payable) (call : Call) :
    host.answer call = (.error .cycleOverflow, host.note call.number) := by
  simp only [answer, if_neg h]

theorem answer_of_forced {host : Host} (h : host.cycles ≤ payable) {result : UInt64}
    (hf : host.forced = some result) (call : Call) :
    host.answer call
      = (.ok { result }, { (host.note call.number).charge with forced := none }) := by
  simp only [answer, if_pos h, hf]

theorem answer_of_served {host : Host} (h : host.cycles ≤ payable) (hf : host.forced = none)
    (call : Call) : host.answer call = (host.note call.number).charge.serve call := by
  simp only [answer, if_pos h, hf]

end Host

end ScriptHost
