import ScriptHost.Decimal.Shortest

/-! How a decimal is written out: where the point stands and when an exponent is used. -/

namespace ScriptHost.Decimal

/-- The choices of a number format. A magnitude is written positionally while the number of digits
before its point is above `lowest` and at most `highest`. -/
structure Layout where
  lowest : Int
  highest : Int
  /-- Written after the point of a whole number. -/
  whole : String
  /-- Written before an exponent that is not negative. -/
  plus : String

/-- The text of a decimal without its sign. -/
def Layout.write (layout : Layout) (s : Scientific) : String :=
  let digits := Nat.toDigits 10 s.digits
  let point : Int := digits.length + s.exponent
  let zeros (n : Int) : List Char := List.replicate n.toNat '0'
  if s.digits = 0 then "0." ++ layout.whole
  else if 0 ≤ s.exponent ∧ point ≤ layout.highest then
    String.ofList (digits ++ zeros s.exponent) ++ "." ++ layout.whole
  else if 0 < point ∧ point ≤ layout.highest then
    String.ofList (digits.take point.toNat ++ '.' :: digits.drop point.toNat)
  else if layout.lowest < point ∧ point ≤ 0 then
    String.ofList ('0' :: '.' :: zeros (-point) ++ digits)
  else
    let exponent := point - 1
    let sign := if exponent < 0 then "-" else layout.plus
    let fraction := digits.drop 1
    let mantissa := if fraction.isEmpty then digits else digits.take 1 ++ '.' :: fraction
    String.ofList mantissa ++ "e" ++ sign ++ String.ofList (Nat.toDigits 10 exponent.natAbs)

/-- The text of a finite double-precision word, with a minus sign when its top bit is set. -/
def Layout.writeBits (layout : Layout) (bits : UInt64) : String :=
  (if bits.toNat < Nat.pow 2 63 then "" else "-") ++ layout.write (Dyadic.ofBits bits).shortest

end ScriptHost.Decimal
