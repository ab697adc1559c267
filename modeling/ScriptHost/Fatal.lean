/-! The ways in which a program stops for good instead of answering. -/

namespace ScriptHost

/-- Why a program did not come back. -/
inductive Fatal where
  | exited (code : Int8)
  | replaced
  | unknownNumber (number : UInt64)
  /-- The cycle counter has no room for the charge of a call. -/
  | cycleOverflow
  /-- The host came back from a call that ends the program, which then waits for ever. -/
  | exitReturned
deriving DecidableEq, Repr

def Fatal.message : Fatal → String
  | exited code => "Mocked exit called with code " ++ toString code.toInt
  | replaced => "Mocked exec called"
  | unknownNumber number => "Mocked host got unknown syscall number " ++ toString number
  | cycleOverflow => "attempt to add with overflow"
  | exitReturned => "exit returned"

end ScriptHost
