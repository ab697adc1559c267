import ScriptHost.Query

/-!
Walks over the items of a source: one question asked at index after index. A missing item ends a
step of the walk without moving it, so that an item pushed later is still found.
-/

namespace ScriptHost

/-- A walk and the index that it asks about next. -/
structure Cursor where
  query : Query
  source : Source
  index : Nat := 0
deriving DecidableEq, Repr

namespace Cursor

/-- Asks about the next item. -/
def next (cursor : Cursor) : Program (Option Datum × Cursor) := do
  match ← cursor.query.load (UInt64.ofNat cursor.index) cursor.source with
  | .ok datum => return (some datum, { cursor with index := cursor.index + 1 })
  | .error .itemMissing => return (none, cursor)
  -- Any refusal but a missing item is a fault.
  | .error _ => Program.abort

/-- The next items up to a limit, or up to the first that is missing. -/
def take : Nat → Cursor → Program (List Datum × Cursor)
  | 0, cursor => return ([], cursor)
  | limit + 1, cursor => do
    match ← cursor.next with
    | (none, cursor) => return ([], cursor)
    | (some datum, cursor) =>
      let (rest, cursor) ← take limit cursor
      return (datum :: rest, cursor)

/-- The item after `skip` others, unless one is missing before. -/
def nth : Nat → Cursor → Program (Option Datum × Cursor)
  | 0, cursor => cursor.next
  | skip + 1, cursor => do
    match ← cursor.next with
    | (none, cursor) => return (none, cursor)
    | (some _, cursor) => nth skip cursor

/-- The index of the next item that passes a test, among at most `limit` items. -/
def find (test : Datum → Bool) : Nat → Cursor → Program (Option Nat)
  | 0, _ => return none
  | limit + 1, cursor => do
    match ← cursor.next with
    | (none, _) => return none
    | (some datum, rest) => if test datum then return some cursor.index else find test limit rest

end Cursor

namespace Query

/-- The number of indexes that a word can hold, and so the most items that a walk can meet. -/
def indexCount : Nat := UInt64.size

/-- The answers for all items of a source. -/
def collect (query : Query) (source : Source) : Program (List Datum) := do
  let (data, _) ← Cursor.take indexCount { query, source }
  return data

def count (query : Query) (source : Source) : Program Nat := do
  let data ← query.collect source
  return data.length

/-- The index of the first cell whose data has a given digest. -/
def findCellByDataHash (digest : Digest) (source : Source) : Program (Option Nat) :=
  Cursor.find (· = .digest digest) indexCount { query := cellDataHash, source }

end Query

end ScriptHost
