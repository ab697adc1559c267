/-! Byte windows of a program to run, and the words that carry them. -/

namespace ScriptHost

/-- A window of bytes. A length of zero reaches to the end of the item. -/
structure Bounds where
  offset : UInt32
  length : UInt32
deriving DecidableEq, Repr

namespace Bounds

def whole : Bounds :=
  ⟨0, 0⟩

/-- A window in one word: the offset in its upper half and the length in its lower. -/
def toWord (bounds : Bounds) : UInt64 :=
  bounds.offset.toUInt64 <<< 32 ||| bounds.length.toUInt64

def ofWord (word : UInt64) : Bounds :=
  ⟨(word >>> 32).toUInt32, word.toUInt32⟩

/-- Where the window ends in an item of the given size. -/
def stop (bounds : Bounds) (size : Nat) : Nat :=
  if bounds.length = 0 then size else bounds.offset.toNat + bounds.length.toNat

/-- The window lies inside an item of the given size. -/
def Fits (bounds : Bounds) (size : Nat) : Prop :=
  bounds.offset.toNat ≤ bounds.stop size ∧ bounds.stop size ≤ size

instance (bounds : Bounds) (size : Nat) : Decidable (bounds.Fits size) :=
  inferInstanceAs (Decidable (_ ∧ _))

end Bounds

end ScriptHost
