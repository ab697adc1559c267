import ScriptHost.Session.Answer

/-! The programs that a session can run, each with the answer it gives. -/

namespace ScriptHost.Session

/-- A program to run, with what it is given. -/
inductive Action where
  | loadTxHash
  | loadScriptHash
  | loadInto (target : Target) (buffer : Bytes) (offset : UInt64)
  | loadCode (buffer : Bytes) (offset size index : UInt64) (source : Source)
  | vmVersion
  | currentCycles
  | exec (index : UInt64) (source : Source) (place : Place) (bounds : Bounds)
      (arguments : List Bytes)
  | debug (message : String)
  | debugLoading (index : UInt64) (source : Source) (message : String)
  | exit (code : Int8)
  | abort
  | panic (message : String)
  | loadScript
  | loadTransaction
  | ask (query : Query) (index : UInt64) (source : Source)
  | findCell (digest : String) (source : Source)
  | collect (query : Query) (source : Source)
  | count (query : Query) (source : Source)
  | rawWords (number : UInt64) (operands : Operands)
  | rawLoad (number : UInt64) (buffer : Bytes) (offset index source field : UInt64)
  | rawExec (index source place bounds : UInt64) (arguments : List Bytes)
  | rawDebug (message : Bytes)
deriving DecidableEq, Repr

/-- The program of an action. The raw actions give the result word as it stands. -/
def Action.program : Action → Program Answer
  | loadTxHash => do
    return .ofExcept (.datum ∘ .digest) (← Program.loadDigest .txHash)
  | loadScriptHash => do
    return .ofExcept (.datum ∘ .digest) (← Program.loadDigest .scriptHash)
  | loadInto target buffer offset => do
    let loaded ← Program.load target buffer offset
    match loaded.answer with
    | .ok length => return .ok (.number length) { buffer := some loaded.buffer }
    | .error error => return .refused error { buffer := some loaded.buffer }
  | loadCode buffer offset size index source => do
    let (answer, buffer) ← Program.loadCode buffer offset size index source
    match answer with
    | .ok () => return .ok .nothing { buffer := some buffer }
    | .error error => return .refused error { buffer := some buffer }
  | vmVersion => do
    return .value (.word (← Program.vmVersion))
  | currentCycles => do
    return .value (.word (← Program.currentCycles))
  | exec index source place bounds arguments => do
    return .refused (← Program.exec index source place bounds arguments) {}
  | debug message => do
    Program.debug message
    return .value .nothing
  | debugLoading index source message => do
    Program.debugLoading index source message
    return .value .nothing
  | exit code => Program.exit code
  | abort => Program.abort
  | panic message => Program.panic message
  | loadScript => do
    return .ofExcept (.datum ∘ .bytes) (← Program.loadWhole .script)
  | loadTransaction => do
    return .ofExcept (.datum ∘ .bytes) (← Program.loadWhole .transaction)
  | ask query index source => do
    return .ofExcept .datum (← query.load index source)
  | findCell digest source =>
    match Digest.parse digest with
    | .ok digest => do return .value (.position (← Query.findCellByDataHash digest source))
    | .error error => return .badDigest error
  | collect query source => do
    return .value (.items (← query.collect source))
  | count query source => do
    return .value (.number (← query.count source))
  | rawWords number operands => do
    return .value (.word (← Program.callWords number operands))
  | rawLoad number buffer offset index source field => do
    let d ← Program.loadWords number buffer offset index source field
    return .ok (.word d.result) { buffer := some d.buffer, length := some d.length }
  | rawExec index source place bounds arguments => do
    return .value (.word (← Program.execWords index source place bounds arguments))
  | rawDebug message => do
    let reply ← Program.request (.debug (Terminated.write message))
    return .value (.word reply.result)

end ScriptHost.Session
