import ScriptHost.Control
import ScriptHost.Digest.Basic

/-!
Loading byte strings: into a buffer of the caller's, whole, or with a width that is known before.
The length that comes back is that of the item, so a load into too small a buffer can be told.
-/

namespace ScriptHost

/-- What a load leaves with the caller when its result word is not looked at. -/
structure Delivery (capacity : Nat) where
  result : UInt64
  length : Nat
  buffer : Bytes
  length_buffer : buffer.length = capacity

/-- The answer to a load, and the caller's buffer as it is left. -/
structure Loaded (capacity : Nat) where
  answer : Except HostError Nat
  buffer : Bytes
  length_buffer : buffer.length = capacity

namespace Program

/-- Loads into a buffer with words as they stand. The length cell starts as the capacity. -/
def loadWords (number : UInt64) (buffer : Bytes) (offset index source field : UInt64) :
    Program (Delivery buffer.length) := do
  let reply ← request (.load number buffer.length offset index source field)
  return {
    result := reply.result
    length := reply.length.getD buffer.length
    buffer := Bytes.overwrite buffer reply.written
    length_buffer := Bytes.length_overwrite buffer reply.written }

/-- Loads a target into a buffer from an offset on. -/
def load (target : Target) (buffer : Bytes) (offset : UInt64) : Program (Loaded buffer.length) := do
  let d ← loadWords target.resource.number buffer offset target.index target.source target.field
  let status ← check d.result
  return ⟨status.map fun _ => d.length, d.buffer, d.length_buffer⟩

def loadCode (buffer : Bytes) (offset size index : UInt64) (source : Source) :
    Program (Except HostError Unit × Bytes) := do
  let reply ← request (.loadCode buffer.length offset size index source.word)
  let status ← check reply.result
  return (status, Bytes.overwrite buffer reply.written)

/-- Loads a target that has to have a given width. -/
def loadExact (target : Target) (width : Nat) :
    Program (Except HostError { b : Bytes // b.length = width }) := do
  let loaded ← load target (Bytes.zeros width) 0
  match loaded.answer with
  | .error error => return .error error
  | .ok length =>
    if length = width then
      return .ok ⟨loaded.buffer, loaded.length_buffer.trans (Bytes.length_zeros width)⟩
    -- Any other length is a fault of the host.
    else abort

/-- The size of the buffer that a load of unknown length is tried with. -/
def probeSize : Nat := 1024

/-- Loads a target of any length. -/
def loadWhole (target : Target) : Program (Except HostError Bytes) := do
  let probe ← load target (Bytes.zeros probeSize) 0
  match probe.answer with
  | .error error => return .error error
  | .ok length =>
    if length ≤ probeSize then return .ok (probe.buffer.take length)
    else
      -- What the probe leaves out is fetched by a second load, which has to report the same length.
      let rest ← load target (Bytes.zeros (length - probeSize)) (UInt64.ofNat probeSize)
      match rest.answer with
      | .error error => return .error error
      | .ok again => if again = length then return .ok (probe.buffer ++ rest.buffer) else abort

def loadDigest (target : Target) : Program (Except HostError Digest) := do
  let bytes ← loadExact target 32
  return bytes.map fun b => ⟨b.1, b.2⟩

/-- Loads a word, whose least significant byte comes first. -/
def loadWord (target : Target) : Program (Except HostError UInt64) := do
  let bytes ← loadExact target 8
  return bytes.map fun b => UInt64.ofNat (Bytes.littleEndian b.1)

end Program

end ScriptHost
