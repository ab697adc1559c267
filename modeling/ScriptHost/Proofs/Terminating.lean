import ScriptHost.Proofs.Exits
import ScriptHost.Proofs.FixedWidth
import ScriptHost.Proofs.Interleaving

/-! The end of walks. Nothing bounds a walk but the host: it goes on until an item is missing, until
it aborts, or until the counter is full. A step that brings an item has moved the walk towards the
end of the items, and where a forced result lets the walk pass an item that is not there, it is used
up by that step. -/

namespace ScriptHost

/-- Calls that get replies can be paid. -/
theorem Host.Replies.affords {host left : Host} {trace : List Call}
    (h : host.Replies trace left) : host.Affords trace.length := by
  induction h with
  | nil host => exact host.affords_zero
  | cons hcall hrest ih =>
    obtain ⟨hroom, -, hcycles, -⟩ := Host.answer_of_reply hcall
    rw [Host.payable_iff] at hroom
    simp only [Host.Affords, Host.cyclesPerCall, List.length_cons] at hcycles ih ⊢
    omega

namespace Run

variable {α : Type} {host : Host} {run : Run α}

/-- Where a number of calls cannot be paid, no run makes more: the first that is not paid is its
last. -/
theorem Ends.length_le (h : run.Ends host) {count : Nat} (hn : ¬ host.Affords count) :
    run.trace.length ≤ count := by
  have hpaid {paid : List Call} {left : Host} (hreplies : host.Replies paid left) :
      paid.length < count := by
    by_contra hle
    exact hn (hreplies.affords.mono (Nat.le_of_not_lt hle))
  cases h with
  | finished hreplies => exact Nat.le_of_lt (hpaid hreplies)
  | waiting hreplies => exact Nat.le_of_lt (hpaid hreplies)
  | stopped hreplies hlast =>
    rw [List.length_append]
    exact hpaid hreplies

/-- The run comes to its end within a number of calls. It comes back with a value, or is stopped by
an abort or by a full counter, and does not wait for ever. -/
structure Halts (run : Run α) (bound : Nat) : Prop where
  ends : (∃ value, run.outcome = .ok value) ∨ run.outcome = .error (.exited (-2)) ∨
    run.outcome = .error .cycleOverflow
  length_le : run.trace.length ≤ bound

end Run

namespace Program

variable {α β : Type} {program : Program α} {host : Host}

theorem Yields.length_trace_le {outcome : Except Fatal α} {trace : List Call}
    (h : program.Yields host outcome trace) : (program.run host).trace.length ≤ trace.length := by
  by_cases ha : host.Affords trace.length
  · rw [h.run_host ha]
  · exact (program.run_ends host).length_le ha

theorem Cautious.ends (h : program.Cautious False abortCode) (host : Host) :
    (∃ value, (program.run host).outcome = .ok value) ∨
      (program.run host).outcome = .error (.exited (-2)) ∨
      (program.run host).outcome = .error .cycleOverflow := by
  cases ho : (program.run host).outcome with
  | ok value => exact Or.inl ⟨value, rfl⟩
  | error fatal =>
    right
    rcases (h.failStop.run_stops host).fatal_cases ho with hover | hreplaced | hexit | hreturned
    · exact Or.inr (congrArg Except.error hover)
    · exact hreplaced.1.elim
    · exact Or.inl (congrArg Except.error hexit)
    · rw [hreturned] at ho
      exact absurd ho (h.outcome_ne_exitReturned host)

end Program

namespace Query

variable {holdings : Holdings} {query : Query} {source : Source} {i : Nat}

theorem length_calls_le (query : Query) (target : Target) (selected : Except HostError Bytes) :
    (query.calls target selected).length ≤ 2 := by
  rw [calls]
  cases query.form with
  | bytes => exact Program.length_wholeCalls_le target selected
  | word => exact Program.length_exactCalls_le target 8 selected
  | digest => exact Program.length_exactCalls_le target 32 selected

theorem length_calls_refused (query : Query) (target : Target) (error : HostError) :
    (query.calls target (.error error)).length = 1 := by
  rw [calls]
  cases query.form <;> rfl

end Query

namespace Cursor

variable {α β : Type} {host : Host} {cursor : Cursor} {program : Program α}

/-- The items of a cursor's source that its question can be asked about. -/
def itemCount (cursor : Cursor) (holdings : Holdings) : Nat :=
  cursor.query.itemCount holdings cursor.source

/-- A step of a walk makes at most two calls, and one alone behind the last item. -/
theorem exists_next_yields (hf : host.forced = none) (hi : cursor.index < Query.indexCount) :
    ∃ outcome trace, cursor.next.Yields host outcome trace ∧ trace.length ≤ 2 ∧
      (cursor.itemCount host.holdings ≤ cursor.index → trace.length ≤ 1) := by
  have hcalls := cursor.query.length_calls_le
    (cursor.query.target (UInt64.ofNat cursor.index) cursor.source)
  obtain ⟨datum, hdatum, hnext⟩ | ⟨hmissing, hnext⟩ | ⟨hno, hmissing, hnext⟩ :=
    next_yields_cases hf cursor
  · refine ⟨_, _, hnext, hcalls _, ?_⟩
    intro hbehind
    exact absurd (Query.lt_itemCount hi hdatum) (Nat.not_lt_of_le hbehind)
  · refine ⟨_, _, hnext, hcalls _, ?_⟩
    intro _
    rw [Query.callsAt, Query.selected_of_refused hmissing, Query.length_calls_refused]
  · refine ⟨_, _, hnext, ?_, ?_⟩
    · rw [List.length_append]
      cases ho : cursor.query.outcomeAt host.holdings cursor.source cursor.index with
      | error fatal => exact hcalls _
      | ok answer =>
        cases answer with
        | ok datum => exact absurd ho (hno datum)
        | error error =>
          rw [Query.callsAt, Query.selected_of_refused ho, Query.length_calls_refused]
          rfl
    · intro hbehind
      exact absurd (Query.outcomeAt_of_itemCount_le hi hbehind) hmissing

/-- What the first step of a walk makes of a forced result: an item that need not be there, the end
of the walk, or an abort. -/
theorem next_forced_cases {word : UInt64} (hf : host.forced = some word) (ha : host.Affords 2)
    (cursor : Cursor) :
    (word = 0 ∧ ∃ datum call, cursor.next.run host =
      ⟨.ok (some datum, { cursor with index := cursor.index + 1 }), [call],
        host.relieved.spend [call]⟩) ∨
    (∃ call left, cursor.next.run host = ⟨.ok (none, cursor), [call], left⟩) ∨
    ∃ fatal first last left, cursor.next.run host = ⟨.error fatal, [first, last], left⟩ := by
  have hrun := cursor.next_forces hf ha
  by_cases hzero : word = 0
  · subst hzero
    exact Or.inl ⟨rfl, _, _, hrun⟩
  · by_cases hmissing : word = 2
    · subst hmissing
      exact Or.inr (Or.inl ⟨_, _, hrun⟩)
    · rw [cursor.forcedOutcome_of_ne hzero hmissing] at hrun
      exact Or.inr (Or.inr ⟨_, _, _, _, hrun⟩)

/-- Programs that are over, or take a step of a walk. Behind an item they go on with the walk, and
where no item comes they are over. -/
inductive Walks : Cursor → Program α → Prop where
  | done (cursor : Cursor) (value : α) : Walks cursor (.done value)
  | step {cursor : Cursor} {rest : Option Datum × Cursor → Program α}
      (hnone : ∀ moved, ∃ value, rest (none, moved) = .done value)
      (hsome : ∀ datum moved, Walks moved (rest (some datum, moved))) :
      Walks cursor (cursor.next.bind rest)

theorem Walks.map (h : Walks cursor program) (f : α → β) :
    Walks cursor (program.bind fun value => .done (f value)) := by
  induction h with
  | done cursor value => exact .done cursor (f value)
  | step hnone hsome ih =>
    rw [Program.bind_assoc]
    refine .step ?_ ih
    intro moved
    obtain ⟨value, hvalue⟩ := hnone moved
    refine ⟨f value, ?_⟩
    rw [hvalue]
    rfl

theorem take_walks (limit : Nat) (cursor : Cursor) : Walks cursor (take limit cursor) := by
  induction limit generalizing cursor with
  | zero => exact .done cursor _
  | succ limit ih =>
    refine .step (fun moved => ⟨_, rfl⟩) ?_
    intro datum moved
    exact (ih moved).map fun behind => (datum :: behind.1, behind.2)

theorem nth_walks (skip : Nat) (cursor : Cursor) : Walks cursor (nth skip cursor) := by
  induction skip generalizing cursor with
  | zero =>
    rw [nth, ← Program.bind_pure cursor.next]
    exact .step (fun moved => ⟨_, rfl⟩) fun datum moved => .done moved _
  | succ skip ih => exact .step (fun moved => ⟨_, rfl⟩) fun datum moved => ih moved

theorem find_walks (test : Datum → Bool) (limit : Nat) (cursor : Cursor) :
    Walks cursor (find test limit cursor) := by
  induction limit generalizing cursor with
  | zero => exact .done cursor none
  | succ limit ih =>
    refine .step (fun moved => ⟨none, rfl⟩) ?_
    intro datum moved
    dsimp only
    split
    · exact .done moved _
    · exact ih moved

namespace Walks

theorem cautious (h : Walks cursor program) : program.Cautious False Program.abortCode := by
  induction h with
  | done cursor value => exact .done value
  | @step cursor rest hnone hsome ih =>
    apply Program.Cautious.asks
    apply cursor.next_asks.bind
    rintro ⟨item, moved⟩
    cases item with
    | none =>
      obtain ⟨value, hvalue⟩ := hnone moved
      rw [hvalue]
      exact .done value
    | some datum => exact (ih datum moved).failStop

/-- Every step that brings an item leaves one item less to come, at the cost of two calls at most,
and a step behind the last item costs one call. -/
theorem length_le (h : Walks cursor program) (hf : host.forced = none)
    (hi : cursor.index < Query.indexCount)
    (hn : cursor.itemCount host.holdings < Query.indexCount) :
    (program.run host).trace.length ≤
      2 * (cursor.itemCount host.holdings - cursor.index) + 1 := by
  -- By induction on the walk: the measure is what is left behind the index.
  induction h generalizing host with
  | done cursor value => exact Nat.zero_le _
  | @step cursor rest hnone hsome ih =>
    obtain ⟨outcome, calls, hyields, htwo, hone⟩ := exists_next_yields hf hi
    have hnext : (cursor.next.run host).trace.length ≤ calls.length := hyields.length_trace_le
    have hstep : (cursor.next.run host).trace.length ≤
        2 * (cursor.itemCount host.holdings - cursor.index) + 1 := by
      omega
    rw [Program.run_bind]
    rcases hrun : cursor.next.run host with ⟨fatal | ⟨item, moved⟩, trace, left⟩
    · rw [hrun] at hstep
      exact hstep
    · rw [hrun] at hnext hstep
      obtain ⟨rfl, ⟨datum, rfl, rfl, hdatum⟩ | ⟨rfl, rfl, -⟩⟩ := next_cases hf hrun
      · have hlt : cursor.index < cursor.itemCount host.holdings := Query.lt_itemCount hi hdatum
        have hmoved : cursor.index + 1 < Query.indexCount := by omega
        have hrest : ((rest _).run (host.spend trace)).trace.length ≤
            2 * (cursor.itemCount host.holdings - (cursor.index + 1)) + 1 :=
          ih datum { cursor with index := cursor.index + 1 } hf hmoved hn
        rw [Run.andThen, List.length_append]
        calc trace.length + ((rest _).run (host.spend trace)).trace.length
            ≤ 2 + (2 * (cursor.itemCount host.holdings - (cursor.index + 1)) + 1) :=
              Nat.add_le_add (hnext.trans htwo) hrest
          _ = 2 * (cursor.itemCount host.holdings - cursor.index) + 1 := by omega
      · obtain ⟨value, hvalue⟩ := hnone moved
        simp only [Run.andThen, hvalue, Program.run, List.append_nil]
        exact hstep

/-- A forced result answers the first step of a walk, which costs one call more than it should if
it passes an item that is not there. -/
theorem length_le_of_forced (h : Walks cursor program) {word : UInt64}
    (hf : host.forced = some word) (hi : word = 0 → cursor.index + 1 < Query.indexCount)
    (hn : cursor.itemCount host.holdings < Query.indexCount) :
    (program.run host).trace.length ≤
      2 * max (cursor.itemCount host.holdings - cursor.index) 1 + 1 := by
  by_cases ha : host.Affords 2
  · cases h with
    | done cursor value => exact Nat.zero_le _
    | @step cursor rest hnone hsome =>
      rw [Program.run_bind]
      obtain ⟨hzero, datum, call, hrun⟩ | ⟨call, left, hrun⟩ | ⟨fatal, first, last, left, hrun⟩ :=
        next_forced_cases hf ha cursor
      · have hrest : ((rest _).run (host.relieved.spend [call])).trace.length ≤
            2 * (cursor.itemCount host.holdings - (cursor.index + 1)) + 1 :=
          (hsome datum { cursor with index := cursor.index + 1 }).length_le rfl (hi hzero) hn
        simp only [hrun, Run.andThen, List.length_append, List.length_singleton]
        omega
      · obtain ⟨value, hvalue⟩ := hnone cursor
        simp only [hrun, Run.andThen, hvalue, Program.run, List.append_nil, List.length_singleton]
        omega
      · simp only [hrun, Run.andThen, List.length_cons, List.length_nil]
        omega
  · have hshort := (program.run_ends host).length_le ha
    omega

/-- A walk halts on every host, provided that its indexes are words. -/
theorem halts (h : Walks cursor program) (host : Host) (hi : cursor.index < Query.indexCount)
    (hmoved : host.forced = some 0 → cursor.index + 1 < Query.indexCount)
    (hn : cursor.itemCount host.holdings < Query.indexCount) :
    (program.run host).Halts (2 * max (cursor.itemCount host.holdings - cursor.index) 1 + 1) where
  ends := h.cautious.ends host
  length_le := by
    cases hf : host.forced with
    | none =>
      have hlength := h.length_le hf hi hn
      omega
    | some word =>
      apply h.length_le_of_forced hf _ hn
      rintro rfl
      exact hmoved hf

/-- A walk from the start halts whatever is held: a counter that is full stops it before it has
passed as many items as there are indexes. -/
theorem halts_of_start (h : Walks cursor program) (host : Host) (hi : cursor.index = 0) :
    (program.run host).Halts (2 * max (cursor.itemCount host.holdings) 1 + 1) := by
  have hcount : Query.indexCount = 2 ^ 64 := rfl
  by_cases hn : cursor.itemCount host.holdings < Query.indexCount
  · have hhalts := h.halts host (by omega) (by omega) hn
    rwa [hi, Nat.sub_zero] at hhalts
  · -- Indexes come round again here, but the counter is full long before.
    refine ⟨h.cautious.ends host, ?_⟩
    have hlength := (program.run_ends host).length_le host.not_affords_indexCount
    omega

end Walks

/-- A step of a walk that comes back has been paid for. -/
theorem not_affords_behind {limit : Nat} (hn : ¬ host.Affords (limit + 1))
    {result : Option Datum × Cursor} (ho : (cursor.next.run host).outcome = .ok result) :
    ¬ (cursor.next.run host).host.Affords limit := by
  have hasks : cursor.next.Asks False Program.abortCode := cursor.next_asks
  obtain ⟨hcalls, hroom⟩ := hasks.answered ho
  have hcycles : (cursor.next.run host).host.cycles =
      host.cycles + 500 * (cursor.next.run host).trace.length := by
    refine ((cursor.next.run_ends host).cycles_eq (by omega) ?_).1
    rw [ho]
    intro hover
    cases hover
  have hone : 0 < (cursor.next.run host).trace.length := List.length_pos_iff.mpr hcalls
  simp only [Host.Affords, Host.cyclesPerCall] at hn ⊢
  omega

/-- What follows a step of a walk matters only on hosts that have been charged for the step. -/
theorem next_bind_congr {limit : Nat} (hn : ¬ host.Affords (limit + 1))
    {rest other : Option Datum × Cursor → Program α}
    (h : ∀ result left, ¬ left.Affords limit → (rest result).run left = (other result).run left) :
    (cursor.next.bind rest).run host = (cursor.next.bind other).run host := by
  have hbehind (result : Option Datum × Cursor) (ho : (cursor.next.run host).outcome = .ok result) :=
    h result _ (not_affords_behind hn ho)
  rw [Program.run_bind, Program.run_bind, Run.andThen, Run.andThen]
  cases ho : (cursor.next.run host).outcome with
  | error fatal => rfl
  | ok result => simp only [hbehind result ho]

/-- A limit that cannot be paid for is never reached, so that a larger one changes nothing. -/
theorem take_run_of_le {limit more : Nat} (hn : ¬ host.Affords limit) (hle : limit ≤ more)
    (cursor : Cursor) : (take more cursor).run host = (take limit cursor).run host := by
  -- Each step takes one from what can be paid, as it does from the limit.
  induction limit generalizing more host cursor with
  | zero => exact absurd host.affords_zero hn
  | succ limit ih =>
    obtain ⟨behind, rfl⟩ : ∃ behind, more = behind + 1 := ⟨more - 1, by omega⟩
    have hbehind : limit ≤ behind := by omega
    refine next_bind_congr hn ?_
    rintro ⟨item, moved⟩ left hleft
    cases item with
    | none => rfl
    | some datum =>
      have hrest : (take behind moved).run left = (take limit moved).run left :=
        ih hleft hbehind moved
      simp only [Program.bind_eq, Program.run_bind, hrest]

theorem find_run_of_le {limit more : Nat} (hn : ¬ host.Affords limit) (hle : limit ≤ more)
    (test : Datum → Bool) (cursor : Cursor) :
    (find test more cursor).run host = (find test limit cursor).run host := by
  induction limit generalizing more host cursor with
  | zero => exact absurd host.affords_zero hn
  | succ limit ih =>
    obtain ⟨behind, rfl⟩ : ∃ behind, more = behind + 1 := ⟨more - 1, by omega⟩
    have hbehind : limit ≤ behind := by omega
    refine next_bind_congr hn ?_
    rintro ⟨item, moved⟩ left hleft
    cases item with
    | none => rfl
    | some datum =>
      dsimp only
      split
      · rfl
      · exact ih hleft hbehind moved

end Cursor

/-- Every walk ends on every host, whatever is held, forced or charged, and makes at most two calls
for every item that is left to it and one more. The walks that have no limit of their own are those
of any limit that is large enough. A cursor counts in words, as does what is held: it is not moved
past the last word by a forced result. -/
theorem Host.walks_end (host : Host) :
    (∀ query source,
      let bound := 2 * max (query.itemCount host.holdings source) 1 + 1
      ((query.collect source).run host).Halts bound ∧ ((query.count source).run host).Halts bound ∧
        ∀ limit ≥ Query.indexCount,
          ((Cursor.take limit { query, source }).bind fun taken => .done taken.1).run host =
            (query.collect source).run host) ∧
    (∀ digest source,
      let bound := 2 * max (host.holdings.cells.items source.word).length 1 + 1
      ((Query.findCellByDataHash digest source).run host).Halts bound ∧
        ∀ limit ≥ Query.indexCount,
          (Cursor.find (· = .digest digest) limit { query := .cellDataHash, source }).run host =
            (Query.findCellByDataHash digest source).run host) ∧
    (∀ cursor : Cursor, cursor.index < 2 ^ 64 → cursor.itemCount host.holdings < 2 ^ 64 →
      (host.forced = some 0 → cursor.index + 1 < 2 ^ 64) →
      let bound := 2 * max (cursor.itemCount host.holdings - cursor.index) 1 + 1
      ∀ count, ((Cursor.nth count cursor).run host).Halts bound ∧
        ((Cursor.take count cursor).run host).Halts bound) := by
  have hnever := host.not_affords_indexCount
  refine ⟨?_, ?_, ?_⟩
  · intro query source bound
    have htake := Cursor.take_walks Query.indexCount { query, source }
    have hcollect := htake.map Prod.fst
    refine ⟨hcollect.halts_of_start host rfl, ?_, ?_⟩
    · exact (hcollect.map List.length).halts_of_start host rfl
    · intro limit hlimit
      rw [Program.run_bind, Cursor.take_run_of_le hnever hlimit, ← Program.run_bind]
      rfl
  · intro digest source bound
    refine ⟨(Cursor.find_walks _ Query.indexCount _).halts_of_start host rfl, ?_⟩
    intro limit hlimit
    exact Cursor.find_run_of_le hnever hlimit _ _
  · intro cursor hindex hcount hmoved bound count
    exact ⟨(Cursor.nth_walks count cursor).halts host hindex hmoved hcount,
      (Cursor.take_walks count cursor).halts host hindex hmoved hcount⟩

/-- A walk far behind the only cell passes one more that is not there, and finds the end. -/
theorem Host.walks_end_behind :
    let host : Host :=
      { holdings := { cells := ⟨[(1, { bytes := [1] })]⟩ }
        forced := some 0 }
    let cursor : Cursor := { query := .cell, source := .input, index := 4 }
    (cursor.index < 2 ^ 64 ∧ cursor.itemCount host.holdings < 2 ^ 64 ∧
      (host.forced = some 0 → cursor.index + 1 < 2 ^ 64)) ∧
      ((Cursor.take (2 ^ 64 - 1) cursor).run host).Halts 3 := by
  intro host cursor
  have hindex : cursor.index < 2 ^ 64 := by decide
  have hcount : cursor.itemCount host.holdings < 2 ^ 64 := by decide
  have hmoved : host.forced = some 0 → cursor.index + 1 < 2 ^ 64 := by decide
  have hends := (host.walks_end.2.2 cursor hindex hcount hmoved (2 ^ 64 - 1)).2
  exact ⟨⟨hindex, hcount, hmoved⟩, hends⟩

end ScriptHost
