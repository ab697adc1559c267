import ScriptHost.Session.Action
import ScriptHost.Session.Setup

/-!
Sessions: one host, the cursors opened so far, and the steps that change it, run programs on it and
look at it. A program that does not come back ends its own step only.
-/

namespace ScriptHost

/-- A host with the cursors opened on it, oldest first. A cursor is lost when one of its steps does
not come back. -/
structure Session where
  host : Host := {}
  cursors : List (Option Cursor) := []

namespace Session

/-- What of a host a step can look at. -/
inductive View where
  | calls
  | messages
  | state
deriving DecidableEq, Repr

/-- How a cursor is moved. -/
inductive Move where
  | next
  | nth (skip : Nat)
  | take (limit : Nat)
deriving DecidableEq, Repr

/-- A step of a session. Cursors are known by their place in the order of opening. -/
inductive Step where
  | setup (change : Setup)
  | observe (view : View)
  | perform (action : Action)
  | openCursor (query : Query) (source : Source)
  | advance (id : Nat) (move : Move)
deriving DecidableEq, Repr

def View.value (host : Host) : View → Value
  | calls => .callNumbers host.calls
  | messages => .messages host.messages
  | state => .state host

def Move.program (cursor : Cursor) : Move → Program (Value × Cursor)
  | next => do
    let (item, cursor) ← cursor.next
    return (.item item, cursor)
  | nth skip => do
    let (item, cursor) ← Cursor.nth skip cursor
    return (.item item, cursor)
  | take limit => do
    let (items, cursor) ← Cursor.take limit cursor
    return (.items items, cursor)

/-- The cursor of an id, unless it was never opened or is lost. -/
def cursor? (session : Session) (id : Nat) : Option Cursor :=
  session.cursors[id]?.join

/-- Moves a cursor and keeps what is left of it. -/
def advance (session : Session) (id : Nat) (cursor : Cursor) (move : Move) : Record × Session :=
  let run := (move.program cursor).run session.host
  match run.outcome with
  | .ok (value, moved) =>
    (⟨.value value, run.trace⟩, ⟨run.host, session.cursors.set id (some moved)⟩)
  | .error reason => (⟨.fatal reason, run.trace⟩, ⟨run.host, session.cursors.set id none⟩)

def perform (session : Session) (action : Action) : Record × Session :=
  let run := action.program.run session.host
  let answer := match run.outcome with
    | .ok answer => answer
    | .error reason => .fatal reason
  (⟨answer, run.trace⟩, { session with host := run.host })

def step (session : Session) : Step → Record × Session
  | .setup change => (⟨.value .nothing, []⟩, { session with host := change.apply session.host })
  | .observe view => (⟨.value (view.value session.host), []⟩, session)
  | .perform action => session.perform action
  | .openCursor query source =>
    (⟨.value (.number session.cursors.length), []⟩,
      { session with cursors := session.cursors ++ [some { query, source }] })
  | .advance id move =>
    match session.cursor? id with
    | some cursor => session.advance id cursor move
    | none => (⟨.noCursor id, []⟩, session)

/-- Takes steps in order, giving one record for each. -/
def run (session : Session) : List Step → List Record × Session
  | [] => ([], session)
  | step :: rest =>
    let (record, session) := session.step step
    let (records, session) := session.run rest
    (record :: records, session)

theorem run_append (session : Session) (first rest : List Step) :
    session.run (first ++ rest) =
      let (records, middle) := session.run first
      let (more, last) := middle.run rest
      (records ++ more, last) := by
  induction first generalizing session with
  | nil => rfl
  | cons step first ih => simp only [List.cons_append, run, ih]

end Session

end ScriptHost
