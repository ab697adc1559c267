/-!
Numbers as JSON text spells them. A literal without fraction and exponent that fits a 64-bit word,
signed or not, is an integer, and any other literal is a double-precision fraction.
-/

namespace ScriptHost.Json

/-- A number literal, taken apart: its digits before and after the point, and its exponent. -/
structure Literal where
  negative : Bool
  whole : List Nat
  fraction : List Nat
  /-- Whether a point or an exponent was written. -/
  fractional : Bool
  exponent : Int
deriving DecidableEq, Repr

/-- What a literal denotes. A fraction is given by its double-precision bits. -/
inductive Number where
  | integer (value : Int)
  | fraction (bits : UInt64)
deriving DecidableEq, Repr

/-- Splits off the digits at the front. -/
def digits (text : List Char) : List Nat × List Char :=
  ((text.takeWhile Char.isDigit).map fun c => c.toNat - 48, text.dropWhile Char.isDigit)

/-- The number that digits spell. -/
def ofDigits (ds : List Nat) : Nat :=
  ds.foldl (fun n d => 10 * n + d) 0

/-- The exponent of a literal, if one is written. -/
def exponentOf : List Char → Int
  | '-' :: rest => -(ofDigits (digits rest).1 : Nat)
  | '+' :: rest => ofDigits (digits rest).1
  | rest => ofDigits (digits rest).1

/-- Takes a well-formed number literal apart. -/
def Literal.ofText (text : List Char) : Literal :=
  let (negative, text) := match text with
    | '-' :: rest => (true, rest)
    | rest => (false, rest)
  let (whole, text) := digits text
  let (fraction, text, point) := match text with
    | '.' :: rest => let (ds, rest) := digits rest; (ds, rest, true)
    | rest => ([], rest, false)
  match text with
  | 'e' :: rest => ⟨negative, whole, fraction, true, exponentOf rest⟩
  | 'E' :: rest => ⟨negative, whole, fraction, true, exponentOf rest⟩
  | _ => ⟨negative, whole, fraction, point, 0⟩

/-- Reads digits into a word while they fit. The answer counts the digits left over. -/
def significand : Nat → List Nat → Nat × Nat
  | n, [] => (n, 0)
  | n, d :: rest =>
    if 10 * n + d < UInt64.size then significand (10 * n + d) rest else (n, rest.length + 1)

/-- Multiplies or divides by a power of ten. -/
def scale (x : Float) (exponent : Int) : Float :=
  let power (n : Nat) : Float := Float.ofScientific 1 false n
  if 308 < exponent then x * power 308 * power 308
  else if 0 ≤ exponent then x * power exponent.toNat
  -- A divisor beyond the 308th power is applied in two parts, and beyond the 616th it leaves nothing
  -- of a word.
  else if -308 ≤ exponent then x / power exponent.natAbs
  else if -616 ≤ exponent then x / power 308 / power (exponent.natAbs - 308)
  else 0

/-- The double-precision value of a literal: as many leading digits as fit a word, scaled once by
the power of ten that they stand at. -/
def Literal.float (l : Literal) : Float :=
  let (whole, left) := significand 0 l.whole
  let (value, dropped) := significand whole l.fraction
  let shift : Int := left + dropped - l.fraction.length
  let exponent := shift + l.exponent
  let x := if value = 0 then 0 else scale (UInt64.ofNat value).toFloat exponent
  if l.negative then -x else x

/-- What a literal denotes. -/
def Literal.number (l : Literal) : Number :=
  let n := ofDigits l.whole
  if l.fractional then .fraction l.float.toBits
  else if l.negative then
    -- Minus zero is a fraction, since no integer has its sign.
    if n ≠ 0 ∧ n ≤ Nat.pow 2 63 then .integer (-n) else .fraction l.float.toBits
  else if n < UInt64.size then .integer n
  else .fraction l.float.toBits

end ScriptHost.Json
