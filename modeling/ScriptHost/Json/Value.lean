import ScriptHost.Decimal.Layout
import ScriptHost.Json.Number

/-! JSON values as a reader of strings sees them, and its refusal of every other value. -/

namespace ScriptHost.Json

/-- A JSON value. The contents of a sequence or map do not matter to a reader of strings. -/
inductive Value where
  | null
  | boolean (value : Bool)
  | number (value : Number)
  | string (text : String)
  | sequence
  | map
deriving DecidableEq, Repr

/-- Fractions stay positional from five places after the point up to sixteen before it, keep one
digit after the point, and carry the sign of their exponent. -/
def fractionLayout : Decimal.Layout where
  lowest := -5
  highest := 16
  whole := "0"
  plus := "+"

/-- A value as a refusal names it. -/
def Value.describe : Value → String
  | .null => "null"
  | .boolean true => "boolean `true`"
  | .boolean false => "boolean `false`"
  | .number (.integer n) => "integer `" ++ toString n ++ "`"
  | .number (.fraction bits) => "floating point `" ++ fractionLayout.writeBits bits ++ "`"
  | .string _ => "string"
  | .sequence => "sequence"
  | .map => "map"

end ScriptHost.Json
