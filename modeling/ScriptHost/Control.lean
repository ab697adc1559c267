import ScriptHost.Program

/-! Ending a program, reading result words, printing messages, and asking about the machine. -/

namespace ScriptHost

namespace Program

variable {α : Type}

/-- Makes a call on words alone and yields the result word. -/
def callWords (number : UInt64) (operands : Operands) : Program UInt64 := do
  let reply ← request (.words number operands)
  -- A host that comes back from ending the program leaves it waiting for ever.
  if number = Call.exitNumber then spin else return reply.result

def abortCode : Int8 := -2

def panicCode : Int8 := -1

/-- Ends the program with a code. -/
def exit (code : Int8) : Program α := do
  let _ ← request (.words Call.exitNumber { a0 := code.toInt64.toUInt64 })
  -- Should the host come back all the same, nothing after an exit is run.
  spin

def abort : Program α :=
  exit abortCode

/-- Takes a result word for success or a refusal. -/
def check (result : UInt64) : Program (Except HostError Unit) :=
  match Status.ofWord result with
  | .success => return .ok ()
  | .refused error => return .error error
  -- Any other word is a fault of the host.
  | .unknown => abort

/-- A message in memory: a zero inside it is replaced by a question mark, and a zero ends it. -/
def messageBytes (message : String) : Bytes :=
  Terminated.write ((Utf8.encode message.toList).map fun b => if b = 0 then 0x3F else b)

/-- Prints a message. The result word is not looked at. -/
def debug (message : String) : Program Unit := do
  let _ ← request (.debug (messageBytes message))
  return ()

/-- Prints a message about an item that is being loaded. -/
def debugLoading (index : UInt64) (source : Source) (message : String) : Program Unit :=
  debug ("loading " ++ toString index ++ " from " ++ source.name ++ ": " ++ message)

def panic (message : String) : Program α := do
  debug message
  exit panicCode

def vmVersion : Program UInt64 :=
  callWords Call.vmVersionNumber {}

/-- The cycles consumed, with the charge for this call among them. -/
def currentCycles : Program UInt64 :=
  callWords Call.currentCyclesNumber {}

/-- Makes a request to replace the program, with words as they stand. -/
def execWords (index source place bounds : UInt64) (arguments : List Bytes) : Program UInt64 := do
  let memory := arguments.map Terminated.write
  let reply ← request (.exec index source place bounds memory)
  return reply.result

/-- Replaces the program by the one found in a window of cell data or a witness. It comes back only
with a refusal. -/
def exec (index : UInt64) (source : Source) (place : Place) (bounds : Bounds)
    (arguments : List Bytes) : Program HostError := do
  let result ← execWords index source.word place.word bounds.toWord arguments
  match ← check result with
  | .error error => return error
  -- To come back with success is a fault like a word that means nothing.
  | .ok () => abort

end Program

end ScriptHost
