/-! The refusals that a host can answer with, and the words that stand for them. -/

namespace ScriptHost

/-- Why the host refuses a call. -/
inductive HostError where
  /-- The source or the field is not known. -/
  | indexOutOfBound
  /-- There is no such item, or the item has no such field. -/
  | itemMissing
  /-- The window does not lie inside the item. -/
  | sliceOutOfBound
  /-- The item is there but does not have the field in question. -/
  | wrongFormat
deriving DecidableEq, Repr

namespace HostError

def code : HostError → UInt64
  | indexOutOfBound => 1
  | itemMissing => 2
  | sliceOutOfBound => 3
  | wrongFormat => 4

def message : HostError → String
  | indexOutOfBound => "index out of bound"
  | itemMissing => "item missing"
  | sliceOutOfBound => "slice out of bound"
  | wrongFormat => "wrong format"

def name : HostError → String
  | indexOutOfBound => "IndexOutOfBound"
  | itemMissing => "ItemMissing"
  | sliceOutOfBound => "SliceOutOfBound"
  | wrongFormat => "WrongFormat"

def all : List HostError :=
  [indexOutOfBound, itemMissing, sliceOutOfBound, wrongFormat]

end HostError

/-- What a result word says. -/
inductive Status where
  | success
  | refused (error : HostError)
  /-- The word is none that a host may answer with. -/
  | unknown
deriving DecidableEq, Repr

def Status.ofWord (word : UInt64) : Status :=
  if word = 0 then .success
  else match HostError.all.find? (·.code = word) with
    | some error => .refused error
    | none => .unknown

theorem Status.ofWord_code (error : HostError) : ofWord error.code = .refused error := by
  cases error <;> rfl

end ScriptHost
