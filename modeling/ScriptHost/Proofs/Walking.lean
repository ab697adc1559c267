import ScriptHost.Proofs.ForcedResult
import ScriptHost.Proofs.Keeping

/-! Longer moves of a walk. To skip items and to take several of them is to step from one to the
next until the limit is reached or no item comes, with the same calls and the same walk left behind.
-/

namespace ScriptHost

/-- A program whose value is handed on as it is. -/
theorem Program.bind_pure {α : Type} (program : Program α) : program.bind done = program := by
  induction program with
  | done value => rfl
  | spin => rfl
  | call request next ih =>
    rw [bind]
    congr 1
    funext reply
    exact ih reply

namespace Session

/-- The item that a step has brought. -/
def Record.item? (record : Record) : Option Datum :=
  match record.answer with
  | .ok (.item item) _ => item
  | _ => none

/-- Why a step did not come back. -/
def Record.fatal? (record : Record) : Option Fatal :=
  match record.answer with
  | .fatal reason => some reason
  | _ => none

theorem Record.answer_ne_fatal {record : Record} {reason : Fatal}
    (h : record.fatal? ≠ some reason) : record.answer ≠ .fatal reason := by
  intro hanswer
  rw [fatal?, hanswer] at h
  exact h rfl

/-- Single steps of a walk, up to a limit, or up to the first that brings no item. -/
def nexts (id : Nat) : Nat → Session → List Record × Session
  | 0, session => ([], session)
  | limit + 1, session =>
    let (record, left) := session.step (.advance id .next)
    match record.item? with
    | some _ =>
      let (records, last) := nexts id limit left
      (record :: records, last)
    | none => ([record], left)

/-- The most items that a move brings or skips. -/
def Move.limit : Move → Nat
  | next => 1
  | nth skip => skip + 1
  | take limit => limit

/-- The answer to a move that takes what single steps bring, unless one of them stops it. -/
def Answer.ofRecords (records : List Record) : Answer :=
  match records.findSome? Record.fatal? with
  | some reason => .fatal reason
  | none => .value (.items (records.filterMap Record.item?))

/-- The answer with another value. -/
def Answer.mapValue (change : Value → Value) : Answer → Answer
  | ok value memory => ok (change value) memory
  | answer => answer

/-- The value of a move that has taken one item more. -/
def Value.prepend (datum : Datum) : Value → Value
  | items data => items (datum :: data)
  | value => value

/-- A move that steps once, and then goes on like the rest of it if there was an item. -/
structure Move.Begins (move rest : Move) (ending : Value) (change : Datum → Value → Value) :
    Prop where
  program_eq : ∀ cursor, move.program cursor = cursor.next.bind fun result =>
    match result.1 with
    | none => .done (ending, result.2)
    | some datum => (rest.program result.2).bind fun behind =>
        .done (change datum behind.1, behind.2)

theorem Move.nth_begins (skip : Nat) :
    (nth (skip + 1)).Begins (nth skip) (.item none) fun _ value => value where
  program_eq cursor := by
    rw [program, Program.bind_eq, Cursor.nth, Program.bind_eq, Program.bind_assoc]
    congr 1
    funext result
    rcases result with ⟨item, moved⟩
    cases item with
    | none => rfl
    | some datum =>
      rw [Program.bind_pure]
      rfl

theorem Move.take_begins (limit : Nat) :
    (take (limit + 1)).Begins (take limit) (.items []) Value.prepend where
  program_eq cursor := by
    rw [program, Program.bind_eq, Cursor.take, Program.bind_eq, Program.bind_assoc]
    congr 1
    funext result
    rcases result with ⟨item, moved⟩
    cases item with
    | none => rfl
    | some datum =>
      simp only [program, Program.bind_eq, Program.bind_assoc]
      rfl

variable {session : Session} {id : Nat} {cursor moved : Cursor} {datum : Datum} {trace : List Call}
  {left : Host} {move rest : Move} {ending : Value} {change : Datum → Value → Value}

theorem run_next (cursor : Cursor) (host : Host) :
    (Move.next.program cursor).run host =
      ⟨(cursor.next.run host).outcome.map fun result => (.item result.1, result.2),
        (cursor.next.run host).trace, (cursor.next.run host).host⟩ :=
  cursor.next.run_map (fun result => (Value.item result.1, result.2)) host

theorem step_next (hcursor : session.cursor? id = some cursor) {item : Option Datum}
    (hnext : cursor.next.run session.host = ⟨.ok (item, moved), trace, left⟩) :
    session.step (.advance id .next) =
      (⟨.value (.item item), trace⟩, ⟨left, session.cursors.set id (some moved)⟩) := by
  apply step_advance_of_value hcursor
  rw [run_next, hnext]
  rfl

theorem step_next_of_fatal (hcursor : session.cursor? id = some cursor) {reason : Fatal}
    (hnext : cursor.next.run session.host = ⟨.error reason, trace, left⟩) :
    session.step (.advance id .next) =
      (⟨.fatal reason, trace⟩, ⟨left, session.cursors.set id none⟩) := by
  apply step_advance_of_fatal hcursor
  rw [run_next, hnext]
  rfl

namespace Move.Begins

variable (h : move.Begins rest ending change) (hcursor : session.cursor? id = some cursor)
include h hcursor

theorem step_of_fatal {reason : Fatal}
    (hnext : cursor.next.run session.host = ⟨.error reason, trace, left⟩) :
    session.step (.advance id move) =
      (⟨.fatal reason, trace⟩, ⟨left, session.cursors.set id none⟩) := by
  apply step_advance_of_fatal hcursor
  rw [h.program_eq, Program.run_bind, hnext]
  rfl

theorem step_of_none
    (hnext : cursor.next.run session.host = ⟨.ok (none, moved), trace, left⟩) :
    session.step (.advance id move) =
      (⟨.value ending, trace⟩, ⟨left, session.cursors.set id (some moved)⟩) := by
  apply step_advance_of_value hcursor
  rw [h.program_eq, Program.run_bind, hnext]
  simp only [Run.andThen, Program.run, List.append_nil]

/-- Behind an item the move is the rest of it, taken by the session that the first step leaves. -/
theorem step_of_item
    (hnext : cursor.next.run session.host = ⟨.ok (some datum, moved), trace, left⟩) :
    let behind := (Session.mk left (session.cursors.set id (some moved))).step (.advance id rest)
    session.step (.advance id move) =
      (⟨behind.1.answer.mapValue (change datum), trace ++ behind.1.trace⟩, behind.2) := by
  intro behind
  have hmoved : (Session.mk left (session.cursors.set id (some moved))).cursor? id = some moved :=
    cursor?_set hcursor left moved
  have hrun : (move.program cursor).run session.host =
      ⟨((rest.program moved).run left).outcome.map fun result => (change datum result.1, result.2),
        trace ++ ((rest.program moved).run left).trace, ((rest.program moved).run left).host⟩ := by
    rw [h.program_eq, Program.run_bind, hnext]
    simp only [Run.andThen, Program.run_map]
  simp only [behind, step, hcursor, hmoved, advance, hrun]
  cases ((rest.program moved).run left).outcome with
  | error reason => simp only [Except.map, List.set_set, Answer.mapValue]
  | ok result => simp only [Except.map, List.set_set, Answer.mapValue, Answer.value]

end Move.Begins

theorem nexts_of_item {record : Record} {after : Session}
    (hnext : session.step (.advance id .next) = (record, after))
    (hitem : record.item? = some datum) (limit : Nat) :
    nexts id (limit + 1) session =
      (record :: (nexts id limit after).1, (nexts id limit after).2) := by
  simp only [nexts, hnext, hitem]

theorem nexts_of_none {record : Record} {after : Session}
    (hnext : session.step (.advance id .next) = (record, after)) (hitem : record.item? = none)
    (limit : Nat) : nexts id (limit + 1) session = ([record], after) := by
  simp only [nexts, hnext, hitem]

theorem nexts_one (session : Session) (id : Nat) :
    nexts id 1 session =
      ([(session.step (.advance id .next)).1], (session.step (.advance id .next)).2) := by
  simp only [nexts]
  split <;> rfl

theorem flatMap_trace (record : Record) : [record].flatMap Record.trace = record.trace := by
  rw [List.flatMap_cons, List.flatMap_nil, List.append_nil]

/-- To skip a number of items is to step as often and once more, unless no item comes before. -/
theorem nth_eq_nexts (hcursor : session.cursor? id = some cursor) (skip : Nat) :
    ∃ last, (nexts id (skip + 1) session).1.getLast? = some last ∧
      session.step (.advance id (.nth skip)) =
        (⟨last.answer, (nexts id (skip + 1) session).1.flatMap Record.trace⟩,
          (nexts id (skip + 1) session).2) := by
  -- By induction on the items to be skipped, each of which is one step of the walk.
  induction skip generalizing session cursor with
  | zero =>
    have hsame : session.step (.advance id (.nth 0)) = session.step (.advance id .next) := by
      simp only [step, hcursor]
      rfl
    rw [nexts_one, hsame, flatMap_trace]
    exact ⟨_, rfl, rfl⟩
  | succ skip ih =>
    have hbegins := Move.nth_begins skip
    rcases hnext : cursor.next.run session.host with ⟨reason | ⟨item, moved⟩, trace, left⟩
    · rw [nexts_of_none (step_next_of_fatal hcursor hnext) rfl, flatMap_trace,
        hbegins.step_of_fatal hcursor hnext]
      exact ⟨_, rfl, rfl⟩
    · cases item with
      | none =>
        rw [nexts_of_none (step_next hcursor hnext) rfl, flatMap_trace,
          hbegins.step_of_none hcursor hnext]
        exact ⟨_, rfl, rfl⟩
      | some datum =>
        have hmoved := cursor?_set hcursor left moved
        obtain ⟨last, hlast, hskip⟩ := ih hmoved
        rw [nexts_of_item (step_next hcursor hnext) rfl, hbegins.step_of_item hcursor hnext, hskip]
        refine ⟨last, ?_, ?_⟩
        · rw [List.getLast?_cons, hlast]
          rfl
        · have hanswer : last.answer.mapValue (fun value => value) = last.answer := by
            cases last.answer <;> rfl
          rw [hanswer, List.flatMap_cons]

theorem Answer.ofRecords_cons {record : Record} (hitem : record.item? = some datum)
    (records : List Record) :
    ofRecords (record :: records) = (ofRecords records).mapValue (Value.prepend datum) := by
  have hback : record.fatal? = none := by
    rw [Record.item?] at hitem
    split at hitem
    · next hanswer => rw [Record.fatal?, hanswer]
    · cases hitem
  rw [ofRecords, ofRecords, List.findSome?_cons, hback, List.filterMap_cons_some hitem]
  cases records.findSome? Record.fatal? <;> rfl

theorem set_cursor_self (hcursor : session.cursor? id = some cursor) :
    session.cursors.set id (some cursor) = session.cursors := by
  have hcell : session.cursors[id]? = some (some cursor) := Option.join_eq_some_iff.mp hcursor
  obtain ⟨hlt, hget⟩ := List.getElem_of_getElem? hcell
  rw [← hget, List.set_getElem_self hlt]

/-- To take a number of items is to step as often, unless no item comes before. -/
theorem take_eq_nexts (hcursor : session.cursor? id = some cursor) (limit : Nat) :
    session.step (.advance id (.take limit)) =
      (⟨.ofRecords (nexts id limit session).1, (nexts id limit session).1.flatMap Record.trace⟩,
        (nexts id limit session).2) := by
  induction limit generalizing session cursor with
  | zero =>
    have hrun : ((Move.take 0).program cursor).run session.host =
        ⟨.ok (.items [], cursor), [], session.host⟩ := rfl
    rw [step_advance_of_value hcursor hrun, set_cursor_self hcursor]
    rfl
  | succ limit ih =>
    have hbegins := Move.take_begins limit
    rcases hnext : cursor.next.run session.host with ⟨reason | ⟨item, moved⟩, trace, left⟩
    · rw [nexts_of_none (step_next_of_fatal hcursor hnext) rfl, flatMap_trace,
        hbegins.step_of_fatal hcursor hnext]
      rfl
    · cases item with
      | none =>
        rw [nexts_of_none (step_next hcursor hnext) rfl, flatMap_trace,
          hbegins.step_of_none hcursor hnext]
        rfl
      | some datum =>
        have hmoved := cursor?_set hcursor left moved
        rw [nexts_of_item (step_next hcursor hnext) rfl, hbegins.step_of_item hcursor hnext,
          ih hmoved, Answer.ofRecords_cons rfl, List.flatMap_cons]

end Session

end ScriptHost
