/-!
The shortest decimal that reads back as a given binary fraction: the fewest digits that stay inside
the interval of reals rounding to it, and of those the nearest.
-/

namespace ScriptHost.Decimal

/-- A finite binary fraction `mantissa * 2 ^ exponent` without its sign. -/
structure Dyadic where
  mantissa : Nat
  exponent : Int
deriving DecidableEq, Repr

/-- A decimal `digits * 10 ^ exponent` without its sign. -/
structure Scientific where
  digits : Nat
  exponent : Int
deriving DecidableEq, Repr

/-- The magnitude of a finite double-precision word: 52 bits of mantissa under 11 of exponent. -/
def Dyadic.ofBits (bits : UInt64) : Dyadic :=
  let mantissa := bits.toNat % Nat.pow 2 52
  let biased : Nat := bits.toNat / Nat.pow 2 52 % Nat.pow 2 11
  if biased = 0 then ⟨mantissa, -1074⟩ else ⟨Nat.pow 2 52 + mantissa, (biased : Int) - 1075⟩

/-- The reals that round to a magnitude, in quarters of its last place. The ends belong to them when
the mantissa is even. -/
def Dyadic.interval (x : Dyadic) : Nat × Nat :=
  -- The lower gap is halved at a power of two.
  let below := if x.mantissa = Nat.pow 2 52 ∧ -1074 < x.exponent then 1 else 2
  (4 * x.mantissa - below, 4 * x.mantissa + 2)

/-- The value of one quarter of the last place, as a quotient of two numbers. -/
def Dyadic.quarter (x : Dyadic) : Nat × Nat :=
  (Nat.pow 2 (x.exponent - 2).toNat, Nat.pow 2 (2 - x.exponent).toNat)

/-- The exponent `e` with `10 ^ (e - 1) ≤ x < 10 ^ e`. -/
def Dyadic.decimalExponent (x : Dyadic) : Int :=
  -- The shift by 400 places makes the smallest positive magnitude a whole number of many digits.
  let (num, den) := x.quarter
  (Nat.toDigits 10 (4 * x.mantissa * num * Nat.pow 10 400 / den)).length - 400

/-- The neighbours of the magnitude on the grid `10 ^ place` that read back as it, the nearer one
first; at equal distance the even one comes first. -/
def Dyadic.neighbours (x : Dyadic) (place : Int) : List Nat :=
  let (num, den) := x.quarter
  let scale := num * Nat.pow 10 (-place).toNat
  let grid := den * Nat.pow 10 place.toNat
  let (low, high) := x.interval
  let value := 4 * x.mantissa * scale
  let floor := value / grid
  let inside (d : Nat) : Bool :=
    if x.mantissa % 2 = 0 then decide (low * scale ≤ d * grid ∧ d * grid ≤ high * scale)
    else decide (low * scale < d * grid ∧ d * grid < high * scale)
  let twice := 2 * (value % grid)
  let up := grid < twice ∨ (twice = grid ∧ floor % 2 = 1)
  (if up then [floor + 1, floor] else [floor, floor + 1]).filter inside

/-- Drops trailing zeros, as far as `fuel` allows. -/
def Scientific.trim : Nat → Scientific → Scientific
  | 0, s => s
  | fuel + 1, s =>
    if s.digits ≠ 0 ∧ s.digits % 10 = 0 then trim fuel ⟨s.digits / 10, s.exponent + 1⟩ else s

/-- The shortest decimal for a magnitude. -/
def Dyadic.shortest (x : Dyadic) : Scientific :=
  if x.mantissa = 0 then ⟨0, 0⟩
  else
    let e := x.decimalExponent
    -- Seventeen digits always suffice.
    let places := (List.range 17).map fun (n : Nat) => e - (n + 1)
    let hits : List Scientific := places.flatMap fun place =>
      (x.neighbours place).map fun d => .mk d place
    (hits.headD ⟨0, 0⟩).trim 17

end ScriptHost.Decimal
