import Mathlib.Data.List.Induction
import ScriptHost.Proofs.Collecting
import ScriptHost.Proofs.Interference
import ScriptHost.Proofs.PushHistory
import ScriptHost.Proofs.Walking

/-! Walks side by side. What a walk has brought is told by the items under its source in the order
of the pushes, however its steps are mixed with pushes, with other walks and with runs of programs.
-/

namespace ScriptHost

namespace Query

variable {query : Query} {holdings : Holdings} {source : Source}

/-- The shelf of the items that a question is asked about. -/
def shelf : Query → Shelf
  | cell | cellData | cellLock | cellCapacity | cellOccupiedCapacity => .cells
  | cellLockHash | cellTypeHash | cellDataHash => .cells
  | input | inputOutPoint | inputSince => .inputs
  | header | headerEpochNumber | headerEpochStartBlockNumber | headerEpochLength => .headers
  | witness => .witnesses

/-- What a question selects of an item. -/
def pick (query : Query) (item : Item) : Except HostError Bytes :=
  match query with
  | cell | input | header | witness => .ok item.bytes
  | cellData => .ok item.data
  | _ => Holdings.found query.shelf.fieldAbsence (item.field? (query.target 0 .input).field)

theorem selections_eq_map (query : Query) (holdings : Holdings) (source : Source) :
    query.selections holdings source =
      (holdings.shelved query.shelf source.word).map query.pick := by
  cases query with
  | witness =>
    simp only [selections, Holdings.selections, Holdings.shelved, shelf, target, Target.resource,
      List.map_map]
    rfl
  | _ => rfl

/-- What a question selects among more items begins with what it selects among fewer. -/
theorem outcomeAt_of_more {left : Holdings} {more : List Item}
    (h : left.shelved query.shelf source.word =
      holdings.shelved query.shelf source.word ++ more) {i : Nat} {datum : Datum}
    (hi : query.outcomeAt holdings source i = .ok (.ok datum)) :
    query.outcomeAt left source i = .ok (.ok datum) := by
  -- An answer comes from an item that is there, which pushes leave at its place.
  cases hselected : (query.selections holdings source)[(UInt64.ofNat i).toNat]? with
  | none =>
    rw [outcomeAt, selected_eq, hselected] at hi
    cases hi
  | some selected =>
    have hleft : (query.selections left source)[(UInt64.ofNat i).toNat]? = some selected := by
      rw [selections_eq_map] at hselected ⊢
      obtain ⟨hlt, _⟩ := List.getElem?_eq_some_iff.mp hselected
      rw [h, List.map_append, List.getElem?_append_left hlt]
      exact hselected
    rw [outcomeAt, selected_eq, hselected] at hi
    rw [outcomeAt, selected_eq, hleft]
    exact hi

/-- The items are what a question answers with at one index after another. -/
def AnswersFrom (query : Query) (holdings : Holdings) (source : Source) (start : Nat)
    (items : List Datum) : Prop :=
  ∀ i datum, items[i]? = some datum →
    query.outcomeAt holdings source (start + i) = .ok (.ok datum)

namespace AnswersFrom

variable {start : Nat} {datum : Datum} {items rest : List Datum}

theorem nil (query : Query) (holdings : Holdings) (source : Source) (start : Nat) :
    query.AnswersFrom holdings source start [] := by
  intro i datum hi
  cases hi

theorem cons (hfirst : query.outcomeAt holdings source start = .ok (.ok datum))
    (hrest : query.AnswersFrom holdings source (start + 1) rest) :
    query.AnswersFrom holdings source start (datum :: rest) := by
  intro i other hi
  cases i with
  | zero =>
    cases hi
    exact hfirst
  | succ i =>
    rw [← Nat.add_assoc, Nat.add_right_comm]
    exact hrest i other hi

theorem append (h : query.AnswersFrom holdings source start items)
    (hrest : query.AnswersFrom holdings source (start + items.length) rest) :
    query.AnswersFrom holdings source start (items ++ rest) := by
  intro i datum hi
  by_cases hlt : i < items.length
  · rw [List.getElem?_append_left hlt] at hi
    exact h i datum hi
  · have hle : items.length ≤ i := Nat.le_of_not_lt hlt
    rw [List.getElem?_append_right hle] at hi
    have hplace := hrest _ datum hi
    rwa [Nat.add_assoc, Nat.add_sub_cancel' hle] at hplace

end AnswersFrom

theorem selected_congr {left : Holdings}
    (h : left.shelved query.shelf source.word = holdings.shelved query.shelf source.word)
    (index : UInt64) : query.selected left index source = query.selected holdings index source := by
  rw [selected_eq, selected_eq, selections_eq_map, selections_eq_map, h]

end Query

/-- Two hosts hold the same items, and no result is forced on either. -/
structure Host.SameItems (host other : Host) : Prop where
  shelved : ∀ shelf source,
    other.holdings.shelved shelf source = host.holdings.shelved shelf source
  forced : host.forced = none
  forced' : other.forced = none

namespace Program

variable {α β : Type} {program : Program α} {next : α → Program β} {host other : Host}

/-- The program only reads, and reads the same on both hosts. -/
def Alike (program : Program α) (host other : Host) : Prop :=
  ∃ outcome trace, program.Yields host outcome trace ∧ program.Yields other outcome trace

theorem Alike.done (value : α) : (Program.done value).Alike host other :=
  ⟨_, _, .done value host, .done value other⟩

theorem Alike.bind (h : program.Alike host other) (hn : ∀ value, (next value).Alike host other) :
    (program.bind next).Alike host other := by
  obtain ⟨outcome, trace, hhost, hother⟩ := h
  cases outcome with
  | error fatal => exact ⟨_, _, hhost.bind_fatal next, hother.bind_fatal next⟩
  | ok value =>
    obtain ⟨last, rest, hnext, hnext'⟩ := hn value
    exact ⟨_, _, hhost.bind hnext, hother.bind hnext'⟩

theorem Alike.run_eq (h : program.Alike host other)
    (ho : (program.run host).outcome ≠ .error .cycleOverflow)
    (ho' : (program.run other).outcome ≠ .error .cycleOverflow) :
    (program.run other).outcome = (program.run host).outcome ∧
      (program.run other).trace = (program.run host).trace := by
  obtain ⟨outcome, trace, hhost, hother⟩ := h
  rw [hhost.run_host (hhost.affords ho), hother.run_host (hother.affords ho')]
  exact ⟨rfl, rfl⟩

end Program

section Walks

open Program

variable {host other : Host} (h : host.SameItems other)
include h

theorem Query.load_alike (query : Query) (index : UInt64) (source : Source) :
    (query.load index source).Alike host other := by
  have hload := query.load_yields h.forced' index source
  rw [query.selected_congr (h.shelved _ _)] at hload
  exact ⟨_, _, query.load_yields h.forced index source, hload⟩

theorem Cursor.next_alike (cursor : Cursor) : cursor.next.Alike host other := by
  apply (cursor.query.load_alike h _ cursor.source).bind
  intro answer
  cases answer with
  | ok datum => exact .done _
  | error error =>
    cases error with
    | itemMissing => exact .done _
    | indexOutOfBound | sliceOutOfBound | wrongFormat =>
      exact ⟨_, _, abort_yields h.forced, abort_yields h.forced'⟩

theorem Cursor.nth_alike (skip : Nat) (cursor : Cursor) : (nth skip cursor).Alike host other := by
  induction skip generalizing cursor with
  | zero => exact cursor.next_alike h
  | succ skip ih =>
    apply (cursor.next_alike h).bind
    rintro ⟨item, moved⟩
    cases item with
    | none => exact .done _
    | some datum => exact ih moved

theorem Cursor.take_alike (limit : Nat) (cursor : Cursor) :
    (take limit cursor).Alike host other := by
  induction limit generalizing cursor with
  | zero => exact .done _
  | succ limit ih =>
    apply (cursor.next_alike h).bind
    rintro ⟨item, moved⟩
    cases item with
    | none => exact .done _
    | some datum => exact (ih moved).bind fun _ => .done _

theorem Session.Move.program_alike (move : Move) (cursor : Cursor) :
    (move.program cursor).Alike host other := by
  cases move with
  | next => exact (cursor.next_alike h).bind fun _ => .done _
  | nth skip => exact (cursor.nth_alike h skip).bind fun _ => .done _
  | take limit => exact (cursor.take_alike h limit).bind fun _ => .done _

end Walks

namespace Cursor

variable {host left : Host} {cursor moved : Cursor} {item : Option Datum} {trace : List Call}

/-- How a step of a walk comes back: with the item that the question at its index answers with,
which moves it, or without an item where there is none, which does not. -/
theorem next_cases (hf : host.forced = none)
    (hrun : cursor.next.run host = ⟨.ok (item, moved), trace, left⟩) :
    left = host.spend trace ∧
      ((∃ datum, item = some datum ∧ moved = { cursor with index := cursor.index + 1 } ∧
        cursor.query.outcomeAt host.holdings cursor.source cursor.index = .ok (.ok datum)) ∨
      (item = none ∧ moved = cursor ∧
        cursor.query.outcomeAt host.holdings cursor.source cursor.index =
          .ok (.error .itemMissing))) := by
  have hback : (cursor.next.run host).outcome ≠ .error .cycleOverflow := by
    rw [hrun]
    exact nofun
  obtain ⟨datum, hdatum, hnext⟩ | ⟨hmissing, hnext⟩ | ⟨-, -, hnext⟩ := next_yields_cases hf cursor
  · rw [hnext.run_host (hnext.affords hback)] at hrun
    cases hrun
    exact ⟨rfl, Or.inl ⟨datum, rfl, rfl, hdatum⟩⟩
  · rw [hnext.run_host (hnext.affords hback)] at hrun
    cases hrun
    exact ⟨rfl, Or.inr ⟨rfl, rfl, hmissing⟩⟩
  · rw [hnext.run_host (hnext.affords hback)] at hrun
    cases hrun

end Cursor

namespace Session

/-- The questions of the walks that steps open, each with its source, in the order of opening. -/
def opened (steps : List Step) : List (Query × Source) :=
  steps.filterMap fun
    | .openCursor query source => some (query, source)
    | _ => none

/-- The items that a step brings or skips on a walk. -/
def consumes (id : Nat) (session : Session) : Step → List Datum
  | .advance other move =>
    if other = id then (nexts id move.limit session).1.filterMap Record.item? else []
  | _ => []

/-- The items that steps bring or skip on a walk, in order. -/
def consumed (id : Nat) (session : Session) : List Step → List Datum
  | [] => []
  | step :: rest => session.consumes id step ++ consumed id (session.step step).2 rest

variable {session : Session} {step : Step} {steps : List Step} {id : Nat} {cursor moved : Cursor}

theorem consumed_snoc (id : Nat) (session : Session) (steps : List Step) (step : Step) :
    consumed id session (steps ++ [step]) =
      consumed id session steps ++ consumes id (session.run steps).2 step := by
  induction steps generalizing session with
  | nil => simp only [List.nil_append, consumed, List.append_nil, run]
  | cons first rest ih =>
    rw [List.cons_append, consumed, consumed, ih, List.append_assoc]
    rfl

/-- Unless a step forces a result, none is forced after it. -/
theorem step_forced (hf : session.host.forced = none)
    (hstep : ∀ result, step ≠ .setup (.forced result)) :
    (session.step step).2.host.forced = none := by
  rcases session.step_cases step with ⟨change, rfl⟩ | ⟨-, hhost⟩
  · cases change with
    | forced result => exact absurd rfl (hstep result)
    | _ => exact hf
  · obtain ⟨charged, -, hforced, -⟩ :=
      ((session.programOf step).run_ends session.host).exists_charged
    rw [hhost, hforced, hf, ite_self]

theorem run_forced (hf : session.host.forced = none)
    (hsteps : ∀ result, .setup (.forced result) ∉ steps) :
    (session.run steps).2.host.forced = none := by
  induction steps generalizing session with
  | nil => exact hf
  | cons step rest ih =>
    obtain ⟨hstep, hrest⟩ := forall_notMem_cons.mp hsteps
    exact ih (step_forced hf hstep) hrest

theorem cursor?_set_none (session : Session) (host : Host) (id : Nat) :
    (Session.mk host (session.cursors.set id none)).cursor? id = none := by
  simp only [cursor?, List.getElem?_set]
  split_ifs <;> rfl

/-- Only the steps of a walk move it. -/
theorem cursor?_step (hmove : ∀ move, step ≠ .advance id move)
    (hopen : ∀ query source, step ≠ .openCursor query source) :
    (session.step step).2.cursor? id = session.cursor? id := by
  cases step with
  | setup | observe | perform => rfl
  | openCursor query source => exact absurd rfl (hopen query source)
  | advance other move =>
    have hne : other ≠ id := by
      rintro rfl
      exact hmove move rfl
    cases hother : session.cursor? other with
    | none => simp only [Session.step, hother]
    | some cursor =>
      simp only [Session.step, hother, Session.advance]
      split <;> simp only [cursor?, List.getElem?_set_ne hne]

theorem cursor?_openCursor (session : Session) (query : Query) (source : Source) (id : Nat) :
    (session.step (.openCursor query source)).2.cursor? id =
      if id = session.cursors.length then some { query, source } else session.cursor? id := by
  simp only [Session.step, cursor?]
  split
  · next hid =>
    rw [hid, List.getElem?_concat_length]
    rfl
  · next hid =>
    have hplace : (session.cursors ++ [some (Cursor.mk query source 0)])[id]? =
        session.cursors[id]? := by
      by_cases hlt : id < session.cursors.length
      · exact List.getElem?_append_left hlt
      · rw [List.getElem?_eq_none, List.getElem?_eq_none]
        · omega
        · rw [List.length_append, List.length_singleton]
          omega
    rw [hplace]

theorem length_cursors_step (session : Session) (step : Step) :
    (session.step step).2.cursors.length = session.cursors.length + (opened [step]).length := by
  cases step with
  | setup | observe | perform => rfl
  | openCursor query source => simp [Session.step, opened]
  | advance id move =>
    simp only [Session.step]
    split
    · simp only [Session.advance]
      split <;> simp [opened]
    · rfl

/-- How single steps of a walk come to an end that does not lose it: the items are those that its
question answers with at one index after another from its place on. -/
theorem nexts_walk (limit : Nat) (hcursor : session.cursor? id = some cursor)
    (hf : session.host.forced = none)
    (hleft : (nexts id limit session).2.cursor? id = some moved) :
    let items := (nexts id limit session).1.filterMap Record.item?
    moved = { cursor with index := cursor.index + items.length } ∧
      cursor.query.AnswersFrom session.host.holdings cursor.source cursor.index items := by
  induction limit generalizing session cursor with
  | zero =>
    cases hcursor.symm.trans hleft
    exact ⟨rfl, .nil _ _ _ _⟩
  | succ limit ih =>
    rcases hnext : cursor.next.run session.host with ⟨reason | ⟨item, next⟩, trace, left⟩
    · rw [nexts_of_none (step_next_of_fatal hcursor hnext) rfl, cursor?_set_none] at hleft
      cases hleft
    · obtain ⟨rfl, ⟨datum, rfl, rfl, hdatum⟩ | ⟨rfl, rfl, hmissing⟩⟩ := cursor.next_cases hf hnext
      · have hmoved := cursor?_set hcursor (session.host.spend trace)
          { cursor with index := cursor.index + 1 }
        rw [nexts_of_item (step_next hcursor hnext) rfl] at hleft ⊢
        obtain ⟨hplace, hrest⟩ := ih hmoved hf hleft
        intro items
        have hall : items = datum :: _ := List.filterMap_cons_some rfl
        rw [hall]
        refine ⟨?_, hrest.cons hdatum⟩
        rw [hplace, List.length_cons, Nat.add_right_comm, Nat.add_assoc]
      · rw [nexts_of_none (step_next hcursor hnext) rfl, cursor?_set hcursor] at hleft
        rw [nexts_of_none (step_next hcursor hnext) rfl]
        cases hleft
        exact ⟨rfl, .nil _ _ _ _⟩

theorem step_advance_left (hcursor : session.cursor? id = some cursor) (move : Move) :
    (session.step (.advance id move)).2 = (nexts id move.limit session).2 := by
  cases move with
  | next => rw [Move.limit, nexts_one]
  | nth skip =>
    obtain ⟨last, -, hstep⟩ := nth_eq_nexts hcursor skip
    rw [hstep, Move.limit]
  | take limit => rw [take_eq_nexts hcursor, Move.limit]

theorem consumes_of_ne (session : Session) (hmove : ∀ move, step ≠ .advance id move) :
    consumes id session step = [] := by
  cases step with
  | advance other move =>
    have hne : other ≠ id := by
      rintro rfl
      exact hmove move rfl
    rw [consumes, if_neg hne]
  | _ => rfl

theorem consumes_of_lost (hcursor : session.cursor? id = none) (move : Move) :
    consumes id session (.advance id move) = [] := by
  have hnext : session.step (.advance id .next) = (⟨.noCursor id, []⟩, session) := by
    simp only [Session.step, hcursor]
  rw [consumes, if_pos rfl]
  cases move.limit with
  | zero => rfl
  | succ limit =>
    rw [nexts_of_none hnext rfl]
    rfl

/-- The items are those that a walk has brought up to its place. -/
structure Walked (holdings : Holdings) (items : List Datum) (cursor : Cursor) : Prop where
  place : cursor.index = items.length
  answers : cursor.query.AnswersFrom holdings cursor.source 0 items

theorem Walked.start (holdings : Holdings) (query : Query) (source : Source) :
    Walked holdings [] { query, source } where
  place := rfl
  answers := .nil query holdings source 0

/-- Whatever a step is, it leaves the items that walks have brought. -/
theorem Walked.kept {items : List Datum} (h : Walked session.host.holdings items cursor)
    (step : Step) : Walked (session.step step).2.host.holdings items cursor where
  place := h.place
  answers i datum hi :=
    Query.outcomeAt_of_more (session.step_shelved step _ _) (h.answers i datum hi)

theorem advance_walk (hcursor : session.cursor? id = some cursor) (hf : session.host.forced = none)
    {move : Move} (hleft : (session.step (.advance id move)).2.cursor? id = some moved) :
    let items := consumes id session (.advance id move)
    moved = { cursor with index := cursor.index + items.length } ∧
      cursor.query.AnswersFrom session.host.holdings cursor.source cursor.index items := by
  rw [step_advance_left hcursor] at hleft
  simp only [consumes, if_true]
  exact nexts_walk move.limit hcursor hf hleft

/-- A move puts what it brings behind the items that the walk has brought before. -/
theorem Walked.advance {items : List Datum} (h : Walked session.host.holdings items cursor)
    (hcursor : session.cursor? id = some cursor) (hf : session.host.forced = none) {move : Move}
    (hleft : (session.step (.advance id move)).2.cursor? id = some moved) :
    Walked session.host.holdings (items ++ consumes id session (.advance id move)) moved := by
  obtain ⟨hmoved, hanswers⟩ := advance_walk hcursor hf hleft
  subst hmoved
  rw [h.place] at hanswers
  constructor
  · rw [List.length_append, ← h.place]
  · rw [← Nat.zero_add items.length] at hanswers
    exact h.answers.append hanswers

/-- Where a walk comes from that is there after a step: it has been opened, or left alone, or moved.
-/
theorem cursor?_cases (hmoved : (session.step step).2.cursor? id = some moved) :
    (∃ query source, step = .openCursor query source ∧ id = session.cursors.length ∧
      moved = { query, source }) ∨
    ((∀ move, step ≠ .advance id move) ∧ session.cursor? id = some moved) ∨
    ∃ move cursor, step = .advance id move ∧ session.cursor? id = some cursor := by
  by_cases hmove : ∃ move, step = .advance id move
  · obtain ⟨move, rfl⟩ := hmove
    cases hcursor : session.cursor? id with
    | none =>
      simp only [Session.step, hcursor] at hmoved
      cases hmoved
    | some cursor => exact Or.inr (Or.inr ⟨move, cursor, rfl, rfl⟩)
  · have hother (move : Move) : step ≠ .advance id move := fun h => hmove ⟨move, h⟩
    by_cases hopen : ∃ query source, step = .openCursor query source
    · obtain ⟨query, source, rfl⟩ := hopen
      rw [cursor?_openCursor] at hmoved
      split at hmoved
      · next hid =>
        cases hmoved
        exact Or.inl ⟨query, source, rfl, hid, rfl⟩
      · exact Or.inr (Or.inl ⟨hother, hmoved⟩)
    · rw [cursor?_step hother fun query source h => hopen ⟨query, source, h⟩] at hmoved
      exact Or.inr (Or.inl ⟨hother, hmoved⟩)

/-- The walks of a session are where their steps have brought them. -/
structure Tracked (session : Session) (steps : List Step) : Prop where
  forced : session.host.forced = none
  length : session.cursors.length = (opened steps).length
  /-- A walk that is not open yet has brought nothing. -/
  unopened : ∀ id, session.cursors.length ≤ id → consumed id {} steps = []
  question : ∀ id cursor, session.cursor? id = some cursor →
    (opened steps)[id]? = some (cursor.query, cursor.source)
  walks : ∀ id cursor, session.cursor? id = some cursor →
    Walked session.host.holdings (consumed id {} steps) cursor

theorem Tracked.snoc (h : Tracked (({} : Session).run steps).2 steps)
    (hstep : ∀ result, step ≠ .setup (.forced result)) :
    Tracked (({} : Session).run (steps ++ [step])).2 (steps ++ [step]) := by
  have hopened : opened (steps ++ [step]) = opened steps ++ opened [step] :=
    List.filterMap_append
  have hkept {id : Nat} {question : Query × Source} (hold : (opened steps)[id]? = some question) :
      (opened steps ++ opened [step])[id]? = some question := by
    rw [List.getElem?_append_left (List.getElem?_eq_some_iff.mp hold).1]
    exact hold
  have hlength := length_cursors_step (({} : Session).run steps).2 step
  have hitems (id : Nat) := consumed_snoc id {} steps step
  rw [run_snoc]
  generalize (({} : Session).run steps).2 = session at h hlength hitems
  refine ⟨step_forced h.forced hstep, ?_, ?_, ?_, ?_⟩
  · rw [hlength, hopened, List.length_append, h.length]
  · intro id hid
    rw [hitems, h.unopened id (by omega), List.nil_append]
    by_cases hmove : ∃ move, step = .advance id move
    · obtain ⟨move, rfl⟩ := hmove
      apply consumes_of_lost
      rw [cursor?, List.getElem?_eq_none (by omega)]
      rfl
    · exact consumes_of_ne session fun move hadvance => hmove ⟨move, hadvance⟩
  · intro id moved hmoved
    rw [hopened]
    rcases cursor?_cases hmoved with ⟨query, source, rfl, rfl, rfl⟩ | ⟨-, hcursor⟩ |
      ⟨move, cursor, rfl, hcursor⟩
    · rw [h.length, List.getElem?_append_right (Nat.le_refl _), Nat.sub_self]
      rfl
    · exact hkept (h.question id moved hcursor)
    · rw [(advance_walk hcursor h.forced hmoved).1]
      exact hkept (h.question id cursor hcursor)
  · intro id moved hmoved
    rw [hitems]
    rcases cursor?_cases hmoved with ⟨query, source, rfl, rfl, rfl⟩ | ⟨hother, hcursor⟩ |
      ⟨move, cursor, rfl, hcursor⟩
    · rw [h.unopened _ (Nat.le_refl _), consumes_of_ne session fun _ => Step.noConfusion]
      exact .start _ query source
    · rw [consumes_of_ne session hother, List.append_nil]
      exact (h.walks id moved hcursor).kept step
    · have hwalked := (h.walks id cursor hcursor).advance hcursor h.forced hmoved
      exact hwalked.kept _

/-- After any steps that force no result, every walk is where its steps have brought it. -/
theorem run_tracked (hsteps : ∀ result, .setup (.forced result) ∉ steps) :
    Tracked (({} : Session).run steps).2 steps := by
  induction steps using List.reverseRecOn with
  | nil =>
    refine ⟨rfl, rfl, fun _ _ => rfl, ?_, ?_⟩
    · intro id cursor hcursor
      cases hcursor
    · intro id cursor hcursor
      cases hcursor
  | append_singleton steps step ih =>
    apply Tracked.snoc
    · apply ih
      intro result hresult
      exact hsteps result (List.mem_append_left _ hresult)
    · rintro result rfl
      exact hsteps result (List.mem_append_right _ List.mem_cons_self)

/-- What a step of a walk answers, told by the load of the item at its place. -/
theorem step_next_of_load (hcursor : session.cursor? id = some cursor)
    (hf : session.host.forced = none)
    (hover : (session.step (.advance id .next)).1.answer ≠ .fatal .cycleOverflow) :
    let load := cursor.query.loadAt cursor.source session.host cursor.index
    let record := (session.step (.advance id .next)).1
    let left := (session.step (.advance id .next)).2
    (∀ datum, load.outcome = .ok (.ok datum) →
      record = ⟨.value (.item (some datum)), load.trace⟩ ∧
        left.cursor? id = some { cursor with index := cursor.index + 1 }) ∧
    (load.outcome = .ok (.error .itemMissing) →
      record = ⟨.value (.item none), load.trace⟩ ∧ left.cursors = session.cursors) ∧
    ((∀ datum, load.outcome ≠ .ok (.ok datum)) → load.outcome ≠ .ok (.error .itemMissing) →
      record.answer = .fatal (.exited (-2))) := by
  intro load record left
  have hback : (cursor.next.run session.host).outcome ≠ .error .cycleOverflow := by
    intro hstop
    rcases hnext : cursor.next.run session.host with ⟨outcome, trace, host⟩
    rw [hnext] at hstop
    cases hstop
    rw [step_next_of_fatal hcursor hnext] at hover
    exact hover rfl
  have hload {count : Nat} (ha : session.host.Affords count)
      (hcount : (cursor.query.callsAt session.host.holdings cursor.source cursor.index).length ≤
        count) : load = _ :=
    (cursor.query.load_yields_at hf cursor.source cursor.index).run_host (ha.mono hcount)
  obtain ⟨datum, hdatum, hnext⟩ | ⟨hmissing, hnext⟩ | ⟨hno, hmissing, hnext⟩ :=
    Cursor.next_yields_cases hf cursor
  · have ha := hnext.affords hback
    have hstep := step_next hcursor (hnext.run_host ha)
    simp only [record, left, hload ha (Nat.le_refl _), hstep, hdatum]
    refine ⟨?_, ?_, fun hno => absurd rfl (hno datum)⟩
    · intro datum' hsame
      cases hsame
      exact ⟨rfl, cursor?_set hcursor _ _⟩
    · intro hother
      cases hother
  · have ha := hnext.affords hback
    have hstep := step_next hcursor (hnext.run_host ha)
    simp only [record, left, hload ha (Nat.le_refl _), hstep, hmissing]
    refine ⟨?_, fun _ => ⟨trivial, set_cursor_self hcursor⟩, fun _ hno => absurd rfl hno⟩
    intro datum hother
    cases hother
  · have ha := hnext.affords hback
    have hstep := step_next_of_fatal hcursor (hnext.run_host ha)
    rw [List.length_append] at ha
    simp only [record, left, hload ha (Nat.le_add_right _ _), hstep]
    refine ⟨fun datum h => absurd h (hno datum), fun h => absurd h hmissing, ?_⟩
    intro _ _
    rfl

/-- Two sessions hold the same items, and their walks are at the same places, except for one. -/
structure Apart (id : Nat) (session other : Session) : Prop where
  items : session.host.SameItems other.host
  length : other.cursors.length = session.cursors.length
  cursors : ∀ k, k ≠ id → other.cursor? k = session.cursor? k

variable {other : Session}

theorem step_sameItems (h : session.host.SameItems other.host)
    (hstep : ∀ result, step ≠ .setup (.forced result)) :
    (session.step step).2.host.SameItems (other.step step).2.host where
  shelved shelf source := by
    rw [step_shelved, step_shelved, h.shelved]
  forced := step_forced h.forced hstep
  forced' := step_forced h.forced' hstep

/-- A move of one walk is the same in both sessions, if the walk is at the same place. -/
theorem advance_alike (h : session.host.SameItems other.host) {k : Nat}
    (hcursor : other.cursor? k = session.cursor? k) {move : Move}
    (ho : (session.step (.advance k move)).1.answer ≠ .fatal .cycleOverflow)
    (ho' : (other.step (.advance k move)).1.answer ≠ .fatal .cycleOverflow) :
    (other.step (.advance k move)).1 = (session.step (.advance k move)).1 ∧
      (other.step (.advance k move)).2.cursor? k =
        (session.step (.advance k move)).2.cursor? k := by
  cases hsession : session.cursor? k with
  | none =>
    rw [hsession] at hcursor
    simp only [Session.step, hsession, hcursor]
    exact ⟨trivial, trivial⟩
  | some cursor =>
    rw [hsession] at hcursor
    simp only [Session.step, hsession, hcursor] at ho ho' ⊢
    rw [ne_eq, advance_fatal_iff] at ho ho'
    obtain ⟨houtcome, htrace⟩ := (move.program_alike h cursor).run_eq ho ho'
    simp only [Session.advance, houtcome, htrace]
    cases ((move.program cursor).run session.host).outcome with
    | error reason =>
      dsimp only
      rw [cursor?_set_none, cursor?_set_none]
      exact ⟨rfl, rfl⟩
    | ok result =>
      dsimp only
      rw [cursor?_set hcursor, cursor?_set hsession]
      exact ⟨rfl, rfl⟩

/-- Whatever a step is, sessions that were apart in one walk are so afterwards. -/
theorem Apart.kept (h : Apart id session other)
    (hstep : ∀ result, step ≠ .setup (.forced result))
    (ho : (session.step step).1.answer ≠ .fatal .cycleOverflow)
    (ho' : (other.step step).1.answer ≠ .fatal .cycleOverflow) :
    Apart id (session.step step).2 (other.step step).2 where
  items := step_sameItems h.items hstep
  length := by rw [length_cursors_step, length_cursors_step, h.length]
  cursors k hk := by
    by_cases hmove : ∃ move, step = .advance k move
    · obtain ⟨move, rfl⟩ := hmove
      exact (advance_alike h.items (h.cursors k hk) ho ho').2
    · have hother (move : Move) : step ≠ .advance k move := fun heq => hmove ⟨move, heq⟩
      by_cases hopen : ∃ query source, step = .openCursor query source
      · obtain ⟨query, source, rfl⟩ := hopen
        rw [cursor?_openCursor, cursor?_openCursor, h.length, h.cursors k hk]
      · have hclosed (query : Query) (source : Source) : step ≠ .openCursor query source :=
          fun heq => hopen ⟨query, source, heq⟩
        rw [cursor?_step hother hclosed, cursor?_step hother hclosed, h.cursors k hk]

theorem Apart.run (h : Apart id session other)
    (hsteps : ∀ result, .setup (.forced result) ∉ steps) (hp : session.CanPay steps)
    (hp' : other.CanPay steps) : Apart id (session.run steps).2 (other.run steps).2 := by
  induction steps generalizing session other with
  | nil => exact h
  | cons step rest ih =>
    rw [canPay_cons] at hp hp'
    obtain ⟨hstep, hrest⟩ := forall_notMem_cons.mp hsteps
    exact ih (h.kept hstep hp.1 hp'.1) hrest hp.2 hp'.2

/-- A step of a walk sets a session apart from itself in this walk alone. -/
theorem apart_of_advance (hf : session.host.forced = none) (id : Nat) (move : Move) :
    Apart id (session.step (.advance id move)).2 session where
  items := {
    shelved := fun shelf source => by
      rw [step_shelved, pushes_of_none rfl, List.append_nil]
    forced := step_forced hf fun _ => Step.noConfusion
    forced' := hf }
  length := by
    rw [length_cursors_step]
    rfl
  cursors k hk := by
    have hmove (move' : Move) : Step.advance id move ≠ .advance k move' := by
      intro heq
      cases heq
      exact hk rfl
    exact (cursor?_step hmove fun _ _ => Step.noConfusion).symm

/-- Walks lose nothing and repeat nothing, however their steps are mixed with all others that force
no result. A walk that is not lost is behind the items that it has brought or skipped, they are what
the loads of its question give at one index after another, and a step of the walk answers as the
next of these loads. Longer moves are single steps up to their limit or up to the first that brings
no item. Without a step of one walk the others bring the same. -/
theorem walks_interleave {steps : List Step}
    (hsteps : ∀ result, Step.setup (.forced result) ∉ steps) :
    let session := (({} : Session).run steps).2
    (∀ id cursor, session.cursor? id = some cursor →
      let items := consumed id {} steps
      let load := cursor.query.loadAt cursor.source session.host
      (opened steps)[id]? = some (cursor.query, cursor.source) ∧
      cursor.index = items.length ∧
      (∀ i datum, items[i]? = some datum → (load i).outcome ≠ .error .cycleOverflow →
        (load i).outcome = .ok (.ok datum)) ∧
      (let record := (session.step (.advance id .next)).1
       let left := (session.step (.advance id .next)).2
       record.answer ≠ .fatal .cycleOverflow →
        (∀ datum, (load items.length).outcome = .ok (.ok datum) →
          record = ⟨.value (.item (some datum)), (load items.length).trace⟩ ∧
            left.cursor? id = some { cursor with index := items.length + 1 }) ∧
        ((load items.length).outcome = .ok (.error .itemMissing) →
          record = ⟨.value (.item none), (load items.length).trace⟩ ∧
            left.cursors = session.cursors) ∧
        ((∀ datum, (load items.length).outcome ≠ .ok (.ok datum)) →
          (load items.length).outcome ≠ .ok (.error .itemMissing) →
          record.answer = .fatal (.exited (-2)))) ∧
      (∀ skip, let (records, left) := nexts id (skip + 1) session
        ∃ last, records.getLast? = some last ∧
          session.step (.advance id (.nth skip)) =
            (⟨last.answer, records.flatMap Record.trace⟩, left)) ∧
      (∀ limit, let (records, left) := nexts id limit session
        session.step (.advance id (.take limit)) =
          (⟨.ofRecords records, records.flatMap Record.trace⟩, left))) ∧
    (∀ first second id move, steps = first ++ .advance id move :: second →
      let other := (({} : Session).run (first ++ second)).2
      ({} : Session).CanPay steps → ({} : Session).CanPay (first ++ second) →
      ∀ k, k ≠ id → other.cursor? k = session.cursor? k ∧
        ∀ move', (session.step (.advance k move')).1.answer ≠ .fatal .cycleOverflow →
          (other.step (.advance k move')).1.answer ≠ .fatal .cycleOverflow →
          (other.step (.advance k move')).1 = (session.step (.advance k move')).1) := by
  intro session
  obtain ⟨hforced, -, -, hquestion, hwalks⟩ := run_tracked hsteps
  constructor
  · intro id cursor hcursor items load
    obtain ⟨hplace, hanswers⟩ := hwalks id cursor hcursor
    refine ⟨hquestion id cursor hcursor, hplace, ?_, ?_, ?_, ?_⟩
    · intro i datum hi hover
      have hyields := cursor.query.load_yields_at hforced cursor.source i
      have hanswer := hanswers i datum hi
      rw [Nat.zero_add] at hanswer
      rw [hanswer] at hyields
      exact congrArg Run.outcome (hyields.run_host (hyields.affords hover))
    · intro record left hover
      have hnext := step_next_of_load hcursor hforced hover
      simp only [hplace] at hnext
      exact hnext
    · intro skip
      exact nth_eq_nexts hcursor skip
    · intro limit
      exact take_eq_nexts hcursor limit
  · rintro first second id move rfl other hp hp' k hk
    rw [canPay_append, canPay_cons] at hp
    rw [canPay_append] at hp'
    obtain ⟨-, -, hp⟩ := hp
    obtain ⟨-, hp'⟩ := hp'
    have hfirst (result : UInt64) : .setup (.forced result) ∉ first :=
      fun hresult => hsteps result (List.mem_append_left _ hresult)
    have hsecond (result : UInt64) : .setup (.forced result) ∉ second :=
      fun hresult => hsteps result (List.mem_append_right _ (List.mem_cons_of_mem _ hresult))
    have hbefore := run_forced (rfl : ({} : Session).host.forced = none) hfirst
    have hapart := (apart_of_advance hbefore id move).run hsecond hp hp'
    have hsession : session = _ :=
      congrArg Prod.snd (run_append {} first (.advance id move :: second))
    have hother : other = _ := congrArg Prod.snd (run_append {} first second)
    rw [hsession, hother]
    refine ⟨hapart.cursors k hk, ?_⟩
    intro move' ho ho'
    exact (advance_alike hapart.items (hapart.cursors k hk) ho ho').1

/-- Two walks over one source. An input that is pushed after the first has found no more is the next
that it brings, and it does not see what the second has taken. -/
theorem walks_interleave_push :
    let first : List Step := [
      .setup (.input 1 { bytes := [1] }),
      .openCursor .input .input,
      .openCursor .input .input,
      .advance 0 .next]
    let second : List Step := [.advance 0 .next, .setup (.input 1 { bytes := [2] })]
    let steps : List Step := first ++ .advance 1 (.take 3) :: second
    let session := (({} : Session).run steps).2
    let other := (({} : Session).run (first ++ second)).2
    (∀ result, .setup (.forced result) ∉ steps) ∧
      consumed 0 {} steps = [.bytes [1]] ∧
      session.cursor? 0 = some ⟨.input, .input, 1⟩ ∧
      (session.step (.advance 0 .next)).1.answer = .value (.item (some (.bytes [2]))) ∧
      (other.step (.advance 0 .next)).1 = (session.step (.advance 0 .next)).1 := by
  intro first second steps session other
  have hsteps : ∀ result, .setup (.forced result) ∉ steps := by
    intro result
    simp [steps, first, second]
  obtain ⟨hwalks, hothers⟩ := walks_interleave hsteps
  have hcursor : session.cursor? 0 = some ⟨.input, .input, 1⟩ := by decide +kernel
  have hitems : consumed 0 {} steps = [.bytes [1]] := by decide +kernel
  have hover : (session.step (.advance 0 .next)).1.answer ≠ .fatal .cycleOverflow :=
    Record.answer_ne_fatal (by decide +kernel)
  have hover' : (other.step (.advance 0 .next)).1.answer ≠ .fatal .cycleOverflow :=
    Record.answer_ne_fatal (by decide +kernel)
  have hp : ({} : Session).CanPay steps := by
    have hrecords : ∀ record ∈ (({} : Session).run steps).1,
        record.fatal? ≠ some .cycleOverflow := by decide +kernel
    exact fun record hrecord => Record.answer_ne_fatal (hrecords record hrecord)
  have hp' : ({} : Session).CanPay (first ++ second) := by
    have hrecords : ∀ record ∈ (({} : Session).run (first ++ second)).1,
        record.fatal? ≠ some .cycleOverflow := by decide +kernel
    exact fun record hrecord => Record.answer_ne_fatal (hrecords record hrecord)
  have hload : (Query.input.loadAt .input session.host 1).outcome = .ok (.ok (.bytes [2])) := by
    decide +kernel
  obtain ⟨-, -, -, hnext, -, -⟩ := hwalks 0 _ hcursor
  simp only [hitems] at hnext
  have hanswer := congrArg Record.answer ((hnext hover).1 (.bytes [2]) hload).1
  obtain ⟨-, hsame⟩ := hothers first second 1 (.take 3) rfl hp hp' 0 (by decide)
  exact ⟨hsteps, hitems, hcursor, hanswer, hsame .next hover hover'⟩

end Session

end ScriptHost
