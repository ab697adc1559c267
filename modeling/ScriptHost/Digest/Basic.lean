import ScriptHost.Text.Hex

/-! Digests: hashes of thirty-two bytes, written as hexadecimal text. -/

namespace ScriptHost

/-- A hash as the host returns it, for a transaction, a script or the data of a cell. -/
structure Digest where
  bytes : Bytes
  length_bytes : bytes.length = 32
deriving DecidableEq, Repr

/-- Why bytes or text are no digest. -/
inductive DigestError where
  /-- The text after its mark is not a whole number of hexadecimal bytes. -/
  | notHex (digits : String)
  | wrongLength (length : Nat)
deriving DecidableEq, Repr

def DigestError.message : DigestError → String
  | .notHex digits => "Can't create Byte32 from string " ++ digits
  | .wrongLength length => "Can't create Byte32 from slice length=" ++ toString length

namespace Digest

/-- The number of bytes of a digest. -/
def size : Nat := 32

def zero : Digest :=
  ⟨Bytes.zeros 32, Bytes.length_zeros 32⟩

/-- Takes bytes as a digest when there are thirty-two of them. -/
def ofBytes (bytes : Bytes) : Except DigestError Digest :=
  if h : bytes.length = 32 then .ok ⟨bytes, h⟩ else .error (.wrongLength bytes.length)

/-- The digits of a text: what follows one leading `0x`, if there is one. -/
def digitsOf : List Char → List Char
  | '0' :: 'x' :: rest => rest
  | text => text

/-- Reads a text of digits of either case, with or without one leading `0x`. -/
def parse (text : String) : Except DigestError Digest :=
  let digits := digitsOf text.toList
  match Hex.decode? digits with
  | some bytes => ofBytes bytes
  | none => .error (.notHex (String.ofList digits))

/-- The text of a digest: `0x` and sixty-four lower-case digits. -/
def toText (digest : Digest) : String :=
  String.ofList ('0' :: 'x' :: Hex.encode digest.bytes)

def isZero (digest : Digest) : Bool :=
  digest.bytes.all (· == 0)

/-- The number that the bytes spell, most significant first. -/
def toNat (digest : Digest) : Nat :=
  Bytes.bigEndian digest.bytes

/-- Digests are ordered byte by byte from the front. -/
instance : Ord Digest where
  compare a b := compare a.bytes b.bytes

/-- The digests in ascending order, with repetitions kept. -/
def sort (digests : List Digest) : List Digest :=
  digests.mergeSort fun a b => (compare a b).isLE

/-- Reads two texts. The refusal of the first comes before that of the second. -/
def parsePair (first second : String) : Except DigestError (Digest × Digest) := do
  let a ← parse first
  let b ← parse second
  return (a, b)

/-- Reads texts in order and sorts what they give. The first refusal is the answer. -/
def sortTexts (texts : List String) : Except DigestError (List Digest) := do
  let digests ← texts.mapM parse
  return sort digests

end Digest

end ScriptHost
