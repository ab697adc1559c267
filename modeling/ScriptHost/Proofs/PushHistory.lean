import ScriptHost.Proofs.Asking
import ScriptHost.Proofs.Stepping

/-! Push histories. Whatever the steps of a session do, they leave the items that were pushed, in
the order of the pushes, so that a load can be answered from the list of steps alone. -/

namespace ScriptHost

/-- The stores of a host that items are pushed to. -/
inductive Shelf where
  | cells
  | inputs
  | headers
  | witnesses
deriving DecidableEq, Repr

namespace Shelf

/-- How a field that an item of the shelf lacks is refused. -/
def fieldAbsence : Shelf → HostError
  | headers => .wrongFormat
  | _ => .itemMissing

/-- What a load of a field selects, given the item that it is about. -/
def selectField (shelf : Shelf) (field : UInt64) : Option Item → Except HostError Bytes
  | some item => Holdings.found shelf.fieldAbsence (item.field? field)
  | none => .error .itemMissing

end Shelf

theorem Store.items_push {α : Type} (store : Store α) (word source : UInt64) (item : α) :
    (store.push word item).items source =
      store.items source ++ if word = source then [item] else [] := by
  by_cases h : word = source
  · subst h
    rw [if_pos rfl, items_push_self]
  · rw [if_neg h, List.append_nil, items_push_of_ne store h]

namespace Item

variable {item : Item} {field : UInt64} {value : Bytes}

/-- The last entry of a field word has the value. -/
def LastValue (item : Item) (field : UInt64) (value : Bytes) : Prop :=
  ∃ before after, item.fields = before ++ (field, value) :: after ∧
    ∀ entry ∈ after, entry.1 ≠ field

theorem LastValue.field?_eq (h : item.LastValue field value) : item.field? field = some value := by
  obtain ⟨before, after, hfields, hafter⟩ := h
  rw [field?, List.lookup_eq_some_iff]
  -- Read backwards, the entries behind the last one of the word come before it.
  refine ⟨after.reverse, before.reverse, ?_, ?_⟩
  · rw [hfields, List.reverse_append, List.reverse_cons, List.append_assoc, List.singleton_append]
  · intro entry hentry
    have hne : entry.1 ≠ field := hafter entry (List.mem_reverse.mp hentry)
    exact bne_iff_ne.mpr hne.symm

theorem field?_eq_none (h : ∀ entry ∈ item.fields, entry.1 ≠ field) :
    item.field? field = none := by
  rw [field?, List.lookup_eq_none_iff]
  intro entry hentry
  have hne : entry.1 ≠ field := h entry (List.mem_reverse.mp hentry)
  exact bne_iff_ne.mpr hne.symm

end Item

theorem Bytes.overwrite_fitting {buffer item : Bytes} (h : item.length ≤ buffer.length)
    (offset : Nat) :
    overwrite buffer (window item offset buffer.length) =
      item.drop offset ++ buffer.drop (item.length - offset) := by
  have hreach : reach item offset buffer.length = item.length - offset := by
    rw [reach_eq_min]
    omega
  rw [overwrite_window, hreach, ← List.length_drop, List.take_length]

namespace Holdings

/-- The items on a shelf under a source word, oldest first. A witness has nothing but bytes. -/
def shelved (holdings : Holdings) (shelf : Shelf) (source : UInt64) : List Item :=
  match shelf with
  | .cells => holdings.cells.items source
  | .inputs => holdings.inputs.items source
  | .headers => holdings.headers.items source
  | .witnesses => (holdings.witnesses.items source).map fun bytes => { bytes }

/-- The item on a shelf that an index word counts to. -/
def shelved? (holdings : Holdings) (shelf : Shelf) (source index : UInt64) : Option Item :=
  (holdings.shelved shelf source)[index.toNat]?

end Holdings

/-- Where a question looks for a whole item, and what of the item it shows. -/
def Query.view? : Query → Option (Shelf × (Item → Bytes))
  | cell => some (.cells, Item.bytes)
  | cellData => some (.cells, Item.data)
  | input => some (.inputs, Item.bytes)
  | header => some (.headers, Item.bytes)
  | witness => some (.witnesses, Item.bytes)
  | _ => none

/-- Where a target that is a field looks for its item. -/
def Target.fieldShelf? : Target → Option Shelf
  | cellField .. => some .cells
  | inputField .. => some .inputs
  | headerField .. => some .headers
  | _ => none

variable {shelf : Shelf} {view : Item → Bytes}

theorem Query.form_of_view? {query : Query} (h : query.view? = some (shelf, view)) :
    query.form = .bytes := by
  cases query <;> first | rfl | cases h

theorem Query.selected_of_view? {query : Query} (h : query.view? = some (shelf, view))
    (holdings : Holdings) (index : UInt64) (source : Source) :
    query.selected holdings index source =
      Holdings.found .itemMissing ((holdings.shelved? shelf source.word index).map view) := by
  cases query with
  | cell | cellData | input | header =>
    cases h
    rfl
  | witness =>
    cases h
    rw [Holdings.shelved?, Holdings.shelved, List.getElem?_map, Option.map_map]
    exact congrArg (Holdings.found .itemMissing) Option.map_id_apply.symm
  | _ => cases h

theorem Target.steady_of_fieldShelf? {target : Target} (h : target.fieldShelf? = some shelf)
    (host : Host) : host.Steady target.resource := by
  intro hscript
  cases target <;> cases h <;> cases hscript

theorem Holdings.found_bind (field : UInt64) (item? : Option Item) :
    found .itemMissing (item?.bind (·.field? field)) =
      match item? with
      | some item => found .itemMissing (item.field? field)
      | none => .error .itemMissing := by
  cases item? <;> rfl

theorem Holdings.read_of_fieldShelf? {target : Target} (h : target.fieldShelf? = some shelf)
    (holdings : Holdings) :
    holdings.read target =
      shelf.selectField target.field (holdings.shelved? shelf target.source target.index) := by
  cases target with
  | cellField | inputField =>
    cases h
    exact found_bind _ _
  | headerField index source field =>
    cases h
    have hitem : holdings.shelved? .headers source.word index =
        holdings.headers.get? source.word index := rfl
    simp only [read, select, Target.resource, Target.index, Target.source, Target.field, hitem]
    cases holdings.headers.get? source.word index <;> rfl
  | _ => cases h

namespace Session

/-- What a change pushes: the shelf, the source word, and the item. -/
def Setup.push? : Setup → Option (Shelf × UInt64 × Item)
  | cell source item => some (.cells, source, item)
  | input source item => some (.inputs, source, item)
  | header source item => some (.headers, source, item)
  | witness source bytes => some (.witnesses, source, { bytes })
  | _ => none

def Step.push? : Step → Option (Shelf × UInt64 × Item)
  | setup change => change.push?
  | _ => none

/-- The items that steps push on a shelf under a source word, in order. -/
def pushes (shelf : Shelf) (source : UInt64) (steps : List Step) : List Item :=
  ((steps.filterMap Step.push?).filter fun push => push.1 = shelf ∧ push.2.1 = source).map (·.2.2)

theorem pushes_append (shelf : Shelf) (source : UInt64) (first rest : List Step) :
    pushes shelf source (first ++ rest) =
      pushes shelf source first ++ pushes shelf source rest := by
  simp only [pushes, List.filterMap_append, List.filter_append, List.map_append]

theorem pushes_of_none {step : Step} (h : step.push? = none) (shelf : Shelf) (source : UInt64) :
    pushes shelf source [step] = [] := by
  rw [pushes, List.filterMap_cons_none h]
  rfl

theorem pushes_of_some {step : Step} {other : Shelf} {word : UInt64} {item : Item}
    (h : step.push? = some (other, word, item)) (shelf : Shelf) (source : UInt64) :
    pushes shelf source [step] = if other = shelf ∧ word = source then [item] else [] := by
  rw [pushes, List.filterMap_cons_some h, List.filterMap_nil]
  by_cases hsame : other = shelf ∧ word = source
  · simp [hsame]
  · simp [hsame]

theorem pushes_of_ne {step : Step} {source : UInt64}
    (h : ∀ item, step.push? ≠ some (shelf, source, item)) : pushes shelf source [step] = [] := by
  cases hpush : step.push? with
  | none => exact pushes_of_none hpush shelf source
  | some push =>
    obtain ⟨other, word, item⟩ := push
    rw [pushes_of_some hpush, if_neg]
    rintro ⟨rfl, rfl⟩
    exact h item hpush

/-- A step that does not push to a place can be left out of the history of the place. -/
theorem pushes_skip {before after : List Step} {step : Step} {source : UInt64}
    (h : ∀ item, step.push? ≠ some (shelf, source, item)) :
    pushes shelf source (before ++ step :: after) = pushes shelf source (before ++ after) := by
  have hafter : pushes shelf source (step :: after) = pushes shelf source after := by
    have hsplit : pushes shelf source (step :: after) = _ := pushes_append shelf source [step] after
    rw [hsplit, pushes_of_ne h, List.nil_append]
  rw [pushes_append, hafter, pushes_append]

theorem Setup.shelved_apply (host : Host) (change : Setup) (shelf : Shelf) (source : UInt64) :
    (change.apply host).holdings.shelved shelf source =
      host.holdings.shelved shelf source ++ pushes shelf source [.setup change] := by
  cases change with
  | cell word item | input word item | header word item =>
    rw [pushes_of_some rfl]
    cases shelf <;> simp [apply, Holdings.shelved, Store.items_push]
  | witness word bytes =>
    rw [pushes_of_some rfl]
    cases shelf <;> simp [apply, Holdings.shelved, Store.items_push, apply_ite]
  | _ =>
    rw [pushes_of_none rfl, List.append_nil]
    cases shelf <;> rfl

theorem shelved_of_script {holdings other : Holdings} {script : Bytes}
    (h : other = { holdings with script := script }) (shelf : Shelf) (source : UInt64) :
    other.shelved shelf source = holdings.shelved shelf source := by
  subst h
  cases shelf <;> rfl

/-- A step adds what it pushes behind the items that are there, and does nothing else to them. -/
theorem step_shelved (session : Session) (step : Step) (shelf : Shelf) (source : UInt64) :
    (session.step step).2.host.holdings.shelved shelf source =
      session.host.holdings.shelved shelf source ++ pushes shelf source [step] := by
  rcases session.step_cases step with ⟨change, rfl⟩ | ⟨hno, hhost⟩
  · exact change.shelved_apply session.host shelf source
  · have hnone : step.push? = none := by
      cases step with
      | setup change => exact absurd rfl (hno change)
      | _ => rfl
    obtain ⟨script, hscript⟩ := (session.programOf step).run_holdings session.host
    rw [← hhost] at hscript
    rw [pushes_of_none hnone, List.append_nil]
    exact shelved_of_script hscript shelf source

/-- The items of a session are those it started with and then those its steps pushed, whatever else
the steps did and however they ended. -/
theorem run_shelved (session : Session) (steps : List Step) (shelf : Shelf) (source : UInt64) :
    (session.run steps).2.host.holdings.shelved shelf source =
      session.host.holdings.shelved shelf source ++ pushes shelf source steps := by
  induction steps generalizing session with
  | nil => exact (List.append_nil _).symm
  | cons step rest ih =>
    have hstep := session.step_shelved step shelf source
    have hrest := ih (session.step step).2
    have hsplit : pushes shelf source (step :: rest) = _ := pushes_append shelf source [step] rest
    rw [hstep, List.append_assoc, ← hsplit] at hrest
    exact hrest

theorem fresh_run_shelved (steps : List Step) (shelf : Shelf) (source : UInt64) :
    (({} : Session).run steps).2.host.holdings.shelved shelf source =
      pushes shelf source steps := by
  rw [run_shelved]
  cases shelf <;> rfl

variable {session : Session}

/-- The answer to a question about a whole item, given the item. -/
def Answer.ofItem (view : Item → Bytes) : Option Item → Answer
  | some item => .value (.datum (.bytes (view item)))
  | none => .refused .itemMissing {}

theorem ask_yields {query : Query} (h : query.view? = some (shelf, view))
    (hf : session.host.forced = none) (index : UInt64) (source : Source) :
    (Action.ask query index source).program.Yields session.host
      (.ok (.ofItem view (session.host.holdings.shelved? shelf source.word index)))
      (Program.wholeCalls (query.target index source)
        (query.selected session.host.holdings index source)) := by
  have hform : query.form = .bytes := query.form_of_view? h
  have hload := (query.load_yields hf index source).map (Answer.ofExcept .datum)
  have hcalls (selected : Except HostError Bytes) :
      query.calls (query.target index source) selected =
        Program.wholeCalls (query.target index source) selected := by
    rw [Query.calls, hform]
  have hanswer : (query.outcome (query.selected session.host.holdings index source)).map
      (Answer.ofExcept .datum) =
        .ok (.ofItem view (session.host.holdings.shelved? shelf source.word index)) := by
    rw [query.outcome_of_bytes hform, query.selected_of_view? h]
    cases session.host.holdings.shelved? shelf source.word index <;> rfl
  rw [hcalls, hanswer] at hload
  exact hload

/-- The answer to a load into a buffer, given what it selects. -/
def Answer.ofSelected (buffer : Bytes) (offset : UInt64) : Except HostError Bytes → Answer
  | .ok value => .ok (.number value.length) {
      buffer := some (Bytes.overwrite buffer (Bytes.window value offset.toNat buffer.length)) }
  | .error error => .refused error { buffer := some buffer }

theorem loadInto_yields {target : Target} (h : target.fieldShelf? = some shelf)
    (hf : session.host.forced = none) (buffer : Bytes) (offset : UInt64) :
    (Action.loadInto target buffer offset).program.Yields session.host
      (.ok (.ofSelected buffer offset (shelf.selectField target.field
        (session.host.holdings.shelved? shelf target.source target.index))))
      [.ofTarget target buffer.length offset] := by
  have hsteady := Target.steady_of_fieldShelf? h session.host
  have hload := Program.load_yields hf hsteady buffer offset
  rw [← Holdings.read_of_fieldShelf? h]
  cases hread : session.host.holdings.read target with
  | ok value =>
    rw [hread] at hload
    exact hload.bind (.done _ session.host)
  | error error =>
    rw [hread] at hload
    exact hload.bind (.done _ session.host)

/-- Where an action looks for the item that it is about. -/
def Action.place? : Action → Option (Shelf × UInt64)
  | ask query _ source => query.view?.map fun view => (view.1, source.word)
  | loadInto target .. => target.fieldShelf?.map fun shelf => (shelf, target.source)
  | _ => none

/-- An action that is about an item makes no more than two calls. -/
theorem place_ne_overflow {action : Action} {source : UInt64}
    (hplace : action.place? = some (shelf, source)) (hf : session.host.forced = none)
    (ha : session.host.Affords 2) :
    (session.step (.perform action)).1.answer ≠ .fatal .cycleOverflow := by
  cases action with
  | ask query index asked =>
    obtain ⟨⟨_, view⟩, hview, _⟩ := Option.map_eq_some_iff.mp hplace
    have htwo := Program.length_wholeCalls_le (query.target index asked)
      (query.selected session.host.holdings index asked)
    exact perform_ne_overflow (ask_yields hview hf index asked) (ha.mono htwo)
  | loadInto target buffer offset =>
    obtain ⟨_, hshelf, _⟩ := Option.map_eq_some_iff.mp hplace
    have hone : session.host.Affords 1 := ha.mono (Nat.le_succ 1)
    exact perform_ne_overflow (loadInto_yields hshelf hf buffer offset) hone
  | _ => cases hplace

theorem answer_congr {other : Session} {action : Action} {source : UInt64}
    (hplace : action.place? = some (shelf, source)) (hf : session.host.forced = none)
    (hf' : other.host.forced = none)
    (hitems : session.host.holdings.shelved shelf source = other.host.holdings.shelved shelf source)
    (hover : (session.step (.perform action)).1.answer ≠ .fatal .cycleOverflow)
    (hover' : (other.step (.perform action)).1.answer ≠ .fatal .cycleOverflow) :
    (session.step (.perform action)).1.answer = (other.step (.perform action)).1.answer := by
  cases action with
  | ask query index asked =>
    obtain ⟨⟨_, view⟩, hview, hsame⟩ := Option.map_eq_some_iff.mp hplace
    cases hsame
    have hyields := ask_yields hview hf index asked
    have hyields' := ask_yields hview hf' index asked
    rw [perform_of_yields hyields hover, perform_of_yields hyields' hover', Holdings.shelved?,
      Holdings.shelved?, hitems]
  | loadInto target buffer offset =>
    obtain ⟨_, hshelf, hsame⟩ := Option.map_eq_some_iff.mp hplace
    cases hsame
    have hyields := loadInto_yields hshelf hf buffer offset
    have hyields' := loadInto_yields hshelf hf' buffer offset
    rw [perform_of_yields hyields hover, perform_of_yields hyields' hover', Holdings.shelved?,
      Holdings.shelved?, hitems]
  | _ => cases hplace

section History

variable {steps : List Step}

theorem ask_after_run {query : Query} (hview : query.view? = some (shelf, view))
    (hf : (({} : Session).run steps).2.host.forced = none) {index : UInt64} {source : Source}
    (hover : ((({} : Session).run steps).2.step (.perform (.ask query index source))).1.answer ≠
      .fatal .cycleOverflow) :
    ((({} : Session).run steps).2.step (.perform (.ask query index source))).1.answer =
      .ofItem view (pushes shelf source.word steps)[index.toNat]? := by
  have hanswer := perform_of_yields (ask_yields hview hf index source) hover
  rwa [Holdings.shelved?, fresh_run_shelved] at hanswer

theorem loadInto_after_run {target : Target} (hshelf : target.fieldShelf? = some shelf)
    (hf : (({} : Session).run steps).2.host.forced = none) {buffer : Bytes} {offset : UInt64}
    (hover : ((({} : Session).run steps).2.step
      (.perform (.loadInto target buffer offset))).1.answer ≠ .fatal .cycleOverflow) :
    ((({} : Session).run steps).2.step (.perform (.loadInto target buffer offset))).1.answer =
      .ofSelected buffer offset (shelf.selectField target.field
        (pushes shelf target.source steps)[target.index.toNat]?) := by
  have hanswer := perform_of_yields (loadInto_yields hshelf hf buffer offset) hover
  rwa [Holdings.shelved?, fresh_run_shelved] at hanswer

end History

/-- After any steps a load that can be paid for is answered from the pushes among them. A question
about a whole item shows the item that its index counts to, a load of a field delivers the last
value that the item was given for it, and steps that push elsewhere can be left out. -/
theorem loads_from_history {steps : List Step}
    (hf : (({} : Session).run steps).2.host.forced = none) :
    let session := (({} : Session).run steps).2
    (∀ action shelf source, action.place? = some (shelf, source) →
      session.host.cycles ≤ 2 ^ 64 - 1 - 1000 →
      (session.step (.perform action)).1.answer ≠ .fatal .cycleOverflow) ∧
    (∀ query shelf view index source, query.view? = some (shelf, view) →
      let answer := (session.step (.perform (.ask query index source))).1.answer
      answer ≠ .fatal .cycleOverflow →
      (∀ item, (pushes shelf source.word steps)[index.toNat]? = some item →
        answer = .value (.datum (.bytes (view item)))) ∧
      ((pushes shelf source.word steps).length ≤ index.toNat →
        answer = .refused .itemMissing {})) ∧
    (∀ target shelf buffer offset, target.fieldShelf? = some shelf →
      let answer := (session.step (.perform (.loadInto target buffer offset))).1.answer
      answer ≠ .fatal .cycleOverflow →
      (∀ item, (pushes shelf target.source steps)[target.index.toNat]? = some item →
        (∀ value, item.LastValue target.field value → value.length ≤ buffer.length →
          answer = .ok (.number value.length) {
            buffer := some (value.drop offset.toNat ++
              buffer.drop (value.length - offset.toNat)) }) ∧
        ((∀ entry ∈ item.fields, entry.1 ≠ target.field) →
          answer = .refused shelf.fieldAbsence { buffer := some buffer })) ∧
      ((pushes shelf target.source steps).length ≤ target.index.toNat →
        answer = .refused .itemMissing { buffer := some buffer })) ∧
    (∀ action shelf source before step after, action.place? = some (shelf, source) →
      steps = before ++ step :: after → (∀ item, step.push? ≠ some (shelf, source, item)) →
      let other := (({} : Session).run (before ++ after)).2
      other.host.forced = none →
      (session.step (.perform action)).1.answer ≠ .fatal .cycleOverflow →
      (other.step (.perform action)).1.answer ≠ .fatal .cycleOverflow →
      (session.step (.perform action)).1.answer = (other.step (.perform action)).1.answer) := by
  intro session
  refine ⟨?_, ?_, ?_, ?_⟩
  · intro action shelf source hplace hc
    have ha : session.host.Affords 2 := by
      simp only [Host.Affords, Host.cyclesPerCall]
      omega
    exact place_ne_overflow hplace hf ha
  · intro query shelf view index source hview answer hover
    have hanswer : answer = _ := ask_after_run hview hf hover
    constructor
    · intro item hitem
      rw [hanswer, hitem]
      rfl
    · intro hshort
      rw [hanswer, List.getElem?_eq_none hshort]
      rfl
  · intro target shelf buffer offset hshelf answer hover
    have hanswer : answer = _ := loadInto_after_run hshelf hf hover
    constructor
    · intro item hitem
      rw [hitem, Shelf.selectField] at hanswer
      constructor
      · intro value hvalue hfits
        rw [hvalue.field?_eq] at hanswer
        rw [hanswer, ← Bytes.overwrite_fitting hfits]
        rfl
      · intro habsent
        rw [Item.field?_eq_none habsent] at hanswer
        exact hanswer
    · intro hshort
      rw [List.getElem?_eq_none hshort] at hanswer
      exact hanswer
  · intro action shelf source before step after hplace hsteps hne other hf' hover hover'
    have hitems : session.host.holdings.shelved shelf source =
        other.host.holdings.shelved shelf source := by
      rw [fresh_run_shelved, fresh_run_shelved, hsteps, pushes_skip hne]
    exact answer_congr hplace hf hf' hitems hover hover'

/-- Two cells of one source, with a step that aborts and pushes elsewhere between them. The first
has two values for its lock. -/
theorem loads_from_history_cells :
    let steps : List Step := [
      .setup (.cell 1 { bytes := [1], fields := [(2, [3]), (0, [4]), (2, [5, 6])] }),
      .perform .abort,
      .setup (.cell 2 { bytes := [9] }),
      .setup (.input 1 { bytes := [8] }),
      .setup (.forced 5),
      .perform (.collect .cell .input),
      .setup (.cell 1 { bytes := [7] })]
    let session := (({} : Session).run steps).2
    session.host.forced = none ∧
      (session.step (.perform (.ask .cell 1 .input))).1.answer = .value (.datum (.bytes [7])) ∧
      (session.step (.perform (.ask .cell 2 .input))).1.answer = .refused .itemMissing {} ∧
      (session.step (.perform (.loadInto (.cellField 0 .input .lock) [0, 0, 0] 0))).1.answer =
        .ok (.number 2) { buffer := some [5, 6, 0] } := by
  intro steps session
  have hf : session.host.forced = none := by decide +kernel
  obtain ⟨hroom, hask, hload, _⟩ := loads_from_history hf
  have hc : session.host.cycles ≤ 2 ^ 64 - 1 - 1000 := by decide +kernel
  have hback {action : Action} {shelf : Shelf} {source : UInt64}
      (hplace : action.place? = some (shelf, source)) := hroom action shelf source hplace hc
  have hsecond := (hask .cell .cells Item.bytes 1 .input rfl (hback rfl)).1 { bytes := [7] } rfl
  have hthird := (hask .cell .cells Item.bytes 2 .input rfl (hback rfl)).2 (by decide)
  let first : Item := { bytes := [1], fields := [(2, [3]), (0, [4]), (2, [5, 6])] }
  have hlast : first.LastValue 2 [5, 6] := ⟨[(2, [3]), (0, [4])], [], rfl, by simp⟩
  have hfields := hload (.cellField 0 .input .lock) .cells [0, 0, 0] 0 rfl (hback rfl)
  have hlock := (hfields.1 first rfl).1 [5, 6] hlast (by decide)
  exact ⟨hf, hsecond, hthird, hlock⟩

end Session

end ScriptHost
