import ScriptHost.Digest.Basic
import ScriptHost.Json.Position
import ScriptHost.Json.Value
import ScriptHost.Text.Quoted

/-! Digests in JSON: a digest is written as the string of its text and read from any string that
parses as one. -/

namespace ScriptHost

/-- Why a JSON value is no digest. -/
inductive DigestJsonError where
  | notString (value : Json.Value)
  | malformed (error : DigestError)
deriving DecidableEq, Repr

def DigestJsonError.text : DigestJsonError → String
  | .notString value => "invalid type: " ++ value.describe ++ ", expected a string"
  | .malformed error => error.message

/-- The text of a refusal as it is shown: a place at its end is written plainly or left out, also
where that place stood in the string itself. -/
def DigestJsonError.message (error : DigestJsonError) : String :=
  Json.showRefusal error.text

namespace Digest

def toJson (digest : Digest) : String :=
  String.ofList (Quoted.quote digest.toText.toList)

def ofJson : Json.Value → Except DigestJsonError Digest
  | .string text => (parse text).mapError .malformed
  | value => .error (.notString value)

/-- Reads a JSON text that is a string literal. There is nothing to be read from any other text. -/
def readJson? (text : String) : Option (Except DigestJsonError Digest) :=
  (Quoted.read? text.toList).map fun content => ofJson (.string (String.ofList content))

end Digest

end ScriptHost
