/-! Byte strings, buffers that are written in place, and the numbers that byte strings spell. -/

namespace ScriptHost

/-- A byte string: the contents of an item, a caller's buffer, or text in memory. -/
abbrev Bytes := List UInt8

namespace Bytes

def zeros (n : Nat) : Bytes :=
  List.replicate n 0

@[simp] theorem length_zeros (n : Nat) : (zeros n).length = n :=
  List.length_replicate

/-- Writes `data` over the start of `buffer`. The buffer keeps its length: what does not fit is
dropped, and bytes that are not reached keep their value. -/
def overwrite (buffer data : Bytes) : Bytes :=
  data.take buffer.length ++ buffer.drop data.length

@[simp] theorem length_overwrite (buffer data : Bytes) :
    (overwrite buffer data).length = buffer.length := by
  simp only [overwrite, List.length_append, List.length_take, List.length_drop]
  omega

@[simp] theorem overwrite_nil (buffer : Bytes) : overwrite buffer [] = buffer := by
  simp [overwrite]

/-- The part of `item` that starts at `offset` and has at most `capacity` bytes. -/
def window (item : Bytes) (offset capacity : Nat) : Bytes :=
  (item.drop offset).take capacity

theorem length_window (item : Bytes) (offset capacity : Nat) :
    (window item offset capacity).length = min capacity (item.length - offset) := by
  simp only [window, List.length_take, List.length_drop]

/-- The number whose least significant byte comes first. -/
def littleEndian : Bytes → Nat
  | [] => 0
  | b :: rest => b.toNat + 256 * littleEndian rest

/-- The number whose most significant byte comes first. -/
def bigEndian (bytes : Bytes) : Nat :=
  bytes.foldl (fun n b => 256 * n + b.toNat) 0

/-- The lowest `width` bytes of `n`, least significant first. -/
def ofLittleEndian : Nat → Nat → Bytes
  | 0, _ => []
  | width + 1, n => UInt8.ofNat n :: ofLittleEndian width (n / 256)

theorem length_ofLittleEndian (width n : Nat) : (ofLittleEndian width n).length = width := by
  induction width generalizing n with
  | zero => rfl
  | succ width ih => simp only [ofLittleEndian, List.length_cons, ih]

theorem littleEndian_ofLittleEndian (width n : Nat) :
    littleEndian (ofLittleEndian width n) = n % Nat.pow 256 width := by
  induction width generalizing n with
  | zero => simp [ofLittleEndian, littleEndian, Nat.mod_one]
  | succ width ih =>
    have hb : (UInt8.ofNat n).toNat = n % 256 := UInt8.toNat_ofNat'
    have hp : Nat.pow 256 (width + 1) = 256 * Nat.pow 256 width := Nat.pow_succ'
    simp only [ofLittleEndian, littleEndian, ih, hb, hp, Nat.mod_mul]

end Bytes

end ScriptHost
