import ScriptHost.Bytes

/-!
UTF-8 text. Reading arbitrary bytes goes byte by byte through a machine with two states, so that a
damaged sequence is replaced by one character and the byte that broke it is read afresh.
-/

namespace ScriptHost.Utf8

def encode (text : List Char) : Bytes :=
  text.flatMap String.utf8EncodeChar

/-- The character that stands for a damaged sequence. -/
def replacement : Char := '\uFFFD'

/-- Where a reader stands: between characters, or inside one that still owes `owed + 1` bytes, the
next of them between `low` and `high`, with the value of the bits read so far. -/
inductive State where
  | start
  | pending (owed : Nat) (low high : UInt8) (value : Nat)
deriving DecidableEq, Repr

/-- Reads a byte that begins a character. -/
def first (b : UInt8) : State × List Char :=
  -- The narrower ranges after `E0`, `ED`, `F0` and `F4` keep out overlong forms, surrogates and
  -- values beyond the last code point.
  if b ≤ 0x7F then (.start, [Char.ofNat b.toNat])
  else if b < 0xC2 then (.start, [replacement])
  else if b ≤ 0xDF then (.pending 0 0x80 0xBF (b.toNat - 0xC0), [])
  else if b = 0xE0 then (.pending 1 0xA0 0xBF 0, [])
  else if b = 0xED then (.pending 1 0x80 0x9F 0xD, [])
  else if b ≤ 0xEF then (.pending 1 0x80 0xBF (b.toNat - 0xE0), [])
  else if b = 0xF0 then (.pending 2 0x90 0xBF 0, [])
  else if b ≤ 0xF3 then (.pending 2 0x80 0xBF (b.toNat - 0xF0), [])
  else if b = 0xF4 then (.pending 2 0x80 0x8F 4, [])
  else (.start, [replacement])

/-- Reads one byte, giving the characters it completes. -/
def step : State → UInt8 → State × List Char
  | .start, b => first b
  | .pending owed low high value, b =>
    if low ≤ b ∧ b ≤ high then
      let value := 64 * value + (b.toNat - 0x80)
      match owed with
      | 0 => (.start, [Char.ofNat value])
      | owed + 1 => (.pending owed 0x80 0xBF value, [])
    else
      -- The pending character is damaged, and the byte is read as the beginning of another.
      let (state, text) := first b
      (state, replacement :: text)

/-- Reads to the end from a given state. -/
def decodeFrom : State → Bytes → List Char
  | .start, [] => []
  -- A character that is still pending at the end is damaged.
  | .pending .., [] => [replacement]
  | state, b :: rest =>
    let (state, text) := step state b
    text ++ decodeFrom state rest

/-- Reads any bytes as text: each longest beginning of a character that breaks off, and each byte
that begins none, becomes one replacement character. -/
def decodeLossy (bytes : Bytes) : List Char :=
  decodeFrom .start bytes

end ScriptHost.Utf8
