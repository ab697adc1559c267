import ScriptHost.Cursor

/-! What a step of a session answers, and what it leaves in the caller's memory. -/

namespace ScriptHost.Session

/-- The value of a step that succeeds. -/
inductive Value where
  | nothing
  | word (value : UInt64)
  | number (value : Nat)
  | datum (value : Datum)
  | item (value : Option Datum)
  | items (values : List Datum)
  | position (value : Option Nat)
  | callNumbers (values : List UInt64)
  | messages (values : List String)
  | state (host : Host)

/-- The caller's memory after a step that was given some. -/
structure Memory where
  buffer : Option Bytes := none
  /-- The length cell, where the caller can see it. -/
  length : Option Nat := none
deriving DecidableEq, Repr

/-- The answer to a step. A step that does not come back leaves no memory to look at. -/
inductive Answer where
  | ok (value : Value) (memory : Memory)
  | refused (error : HostError) (memory : Memory)
  | badDigest (error : DigestError)
  | fatal (reason : Fatal)
  | noCursor (id : Nat)

namespace Answer

/-- Succeeds with a value and nothing in memory. -/
def value (value : Value) : Answer :=
  ok value {}

/-- An answer that may be a refusal, with a value and nothing in memory. -/
def ofExcept {α : Type} (toValue : α → Value) : Except HostError α → Answer
  | .ok result => value (toValue result)
  | .error error => refused error {}

end Answer

/-- A step's answer with the calls it made. -/
structure Record where
  answer : Answer
  trace : List Call

end ScriptHost.Session
