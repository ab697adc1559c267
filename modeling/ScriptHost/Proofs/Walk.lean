import Mathlib.Data.Nat.Find
import Mathlib.Data.List.OfFn
import ScriptHost.Cursor
import ScriptHost.Proofs.Asking

/-! Walks over the items of a source. A walk asks its question at one index after another, and what
it collects is what the questions answer one by one up to the first that does not. -/

namespace ScriptHost

/-- No counter has room for as many calls as there are indexes. -/
theorem Host.not_affords_indexCount (host : Host) : ¬ host.Affords Query.indexCount := by
  have hcount : Query.indexCount = 2 ^ 64 := rfl
  rw [Affords, cyclesPerCall]
  omega

namespace Query

variable {host : Host} {query : Query} {source : Source}

/-- How a question ends about the item that a count reaches. -/
def outcomeAt (query : Query) (holdings : Holdings) (source : Source) (i : Nat) :
    Except Fatal (Except HostError Datum) :=
  query.outcome (query.selected holdings (UInt64.ofNat i) source)

/-- The calls of a question about the item that a count reaches. -/
def callsAt (query : Query) (holdings : Holdings) (source : Source) (i : Nat) : List Call :=
  query.calls (query.target (UInt64.ofNat i) source)
    (query.selected holdings (UInt64.ofNat i) source)

theorem load_yields_at (hf : host.forced = none) (query : Query) (source : Source) (i : Nat) :
    (query.load (UInt64.ofNat i) source).Yields host (query.outcomeAt host.holdings source i)
      (query.callsAt host.holdings source i) :=
  load_yields hf query (UInt64.ofNat i) source

theorem outcome_fatal {selected : Except HostError Bytes} {fatal : Fatal}
    (h : query.outcome selected = .error fatal) : fatal = .exited Program.abortCode := by
  cases selected with
  | error error => cases h
  | ok item =>
    rw [outcome] at h
    split at h <;> cases h
    rfl

theorem calls_ne_nil (query : Query) (target : Target) (selected : Except HostError Bytes) :
    query.calls target selected ≠ [] := by
  rw [calls]
  cases selected with
  | error error => cases query.form <;> exact List.cons_ne_nil _ _
  | ok item =>
    cases query.form
    all_goals
      simp only [Program.wholeCalls, Program.exactCalls]
      split <;> exact List.cons_ne_nil _ _

end Query

namespace Cursor

variable {host : Host} {query : Query} {source : Source} {i : Nat} {datum : Datum}

/-- What a step of a walk calls behind a question that neither answered nor found the end: an abort,
unless the question has aborted by itself. -/
def faultCalls : Except Fatal (Except HostError Datum) → List Call
  | .ok _ => [Program.exitCall Program.abortCode]
  | .error _ => []

theorem next_yields_item (hf : host.forced = none)
    (hi : query.outcomeAt host.holdings source i = .ok (.ok datum)) :
    (next ⟨query, source, i⟩).Yields host (.ok (some datum, ⟨query, source, i + 1⟩))
      (query.callsAt host.holdings source i) := by
  have hload := query.load_yields_at hf source i
  rw [hi] at hload
  rw [← List.append_nil (query.callsAt host.holdings source i)]
  exact hload.bind (.done _ host)

theorem next_yields_missing (hf : host.forced = none)
    (hi : query.outcomeAt host.holdings source i = .ok (.error .itemMissing)) :
    (next ⟨query, source, i⟩).Yields host (.ok (none, ⟨query, source, i⟩))
      (query.callsAt host.holdings source i) := by
  have hload := query.load_yields_at hf source i
  rw [hi] at hload
  rw [← List.append_nil (query.callsAt host.holdings source i)]
  exact hload.bind (.done _ host)

theorem next_yields_fault (hf : host.forced = none)
    (hi : ∀ datum, query.outcomeAt host.holdings source i ≠ .ok (.ok datum))
    (hm : query.outcomeAt host.holdings source i ≠ .ok (.error .itemMissing)) :
    (next ⟨query, source, i⟩).Yields host (.error (.exited Program.abortCode))
      (query.callsAt host.holdings source i ++
        faultCalls (query.outcomeAt host.holdings source i)) := by
  have hload := query.load_yields_at hf source i
  cases ho : query.outcomeAt host.holdings source i with
  | error fatal =>
    rw [ho] at hload
    cases Query.outcome_fatal ho
    rw [faultCalls, List.append_nil]
    exact hload.bind_fatal _
  | ok answer =>
    rw [ho] at hload
    cases answer with
    | ok datum => exact absurd ho (hi datum)
    | error error =>
      apply hload.bind
      cases error with
      | itemMissing => exact absurd ho hm
      | indexOutOfBound | sliceOutOfBound | wrongFormat => exact Program.abort_yields hf

/-- The three ways of a step of a walk: the question at its index answers, there is nothing there, or
the step aborts. -/
theorem next_yields_cases (hf : host.forced = none) (cursor : Cursor) :
    let outcome := cursor.query.outcomeAt host.holdings cursor.source cursor.index
    let calls := cursor.query.callsAt host.holdings cursor.source cursor.index
    (∃ datum, outcome = .ok (.ok datum) ∧ cursor.next.Yields host
      (.ok (some datum, { cursor with index := cursor.index + 1 })) calls) ∨
    (outcome = .ok (.error .itemMissing) ∧ cursor.next.Yields host (.ok (none, cursor)) calls) ∨
    ((∀ datum, outcome ≠ .ok (.ok datum)) ∧ outcome ≠ .ok (.error .itemMissing) ∧
      cursor.next.Yields host (.error (.exited Program.abortCode))
        (calls ++ faultCalls outcome)) := by
  intro outcome calls
  by_cases hitem : ∃ datum, outcome = .ok (.ok datum)
  · obtain ⟨datum, hdatum⟩ := hitem
    exact Or.inl ⟨datum, hdatum, next_yields_item hf hdatum⟩
  · have hno (datum : Datum) : outcome ≠ .ok (.ok datum) := fun h => hitem ⟨datum, h⟩
    right
    by_cases hmissing : outcome = .ok (.error .itemMissing)
    · exact Or.inl ⟨hmissing, next_yields_missing hf hmissing⟩
    · exact Or.inr ⟨hno, hmissing, next_yields_fault hf hno hmissing⟩

/-- A walk over an item that answers puts the answer before those of the walk behind it. -/
theorem take_yields_item (hf : host.forced = none) {limit : Nat}
    {outcome : Except Fatal (List Datum × Cursor)} {calls : List Call}
    (hi : query.outcomeAt host.holdings source i = .ok (.ok datum))
    (hrest : (take limit ⟨query, source, i + 1⟩).Yields host outcome calls) :
    (take (limit + 1) ⟨query, source, i⟩).Yields host
      (outcome.map fun rest => (datum :: rest.1, rest.2))
      (query.callsAt host.holdings source i ++ calls) :=
  (next_yields_item hf hi).bind (hrest.map fun rest => (datum :: rest.1, rest.2))

/-- A walk over items that answer goes on behind them with what is left of its limit. -/
theorem take_yields_append (hf : host.forced = none) {limit : Nat}
    {outcome : Except Fatal (List Datum × Cursor)} {calls : List Call} (data : List Datum) (i : Nat)
    (hdata : ∀ j (hj : j < data.length),
      query.outcomeAt host.holdings source (i + j) = .ok (.ok data[j]))
    (hrest : (take limit ⟨query, source, i + data.length⟩).Yields host outcome calls) :
    (take (data.length + limit) ⟨query, source, i⟩).Yields host
      (outcome.map fun rest => (data ++ rest.1, rest.2))
      ((List.range' i data.length).flatMap (query.callsAt host.holdings source) ++ calls) := by
  -- By induction on the items that answer, each of which takes one from the limit.
  induction data generalizing i with
  | nil =>
    have hmap : (outcome.map fun rest => (([] : List Datum) ++ rest.1, rest.2)) = outcome := by
      cases outcome <;> rfl
    rw [hmap, List.length_nil, Nat.zero_add]
    exact hrest
  | cons datum data ih =>
    have htail (j : Nat) (hj : j < data.length) :
        query.outcomeAt host.holdings source (i + 1 + j) = .ok (.ok data[j]) := by
      have hshift := hdata (j + 1) (Nat.succ_lt_succ hj)
      rwa [List.getElem_cons_succ, ← Nat.add_assoc, Nat.add_right_comm] at hshift
    rw [List.length_cons, ← Nat.add_assoc, Nat.add_right_comm] at hrest
    have hwalk := take_yields_item hf (hdata 0 (Nat.succ_pos _)) (ih (i + 1) htail hrest)
    have houtcome : (outcome.map fun rest => (datum :: data ++ rest.1, rest.2)) =
        (outcome.map fun rest => (data ++ rest.1, rest.2)).map fun rest =>
          (datum :: rest.1, rest.2) := by
      cases outcome <;> rfl
    rw [List.length_cons, Nat.add_right_comm, List.range'_succ, List.flatMap_cons,
      List.append_assoc, houtcome]
    exact hwalk

end Cursor

namespace Query

variable {host : Host} {query : Query} {source : Source}

/-- The calls of the questions about the first `count` items. -/
def callsUpTo (query : Query) (holdings : Holdings) (source : Source) (count : Nat) : List Call :=
  (List.range count).flatMap (query.callsAt holdings source)

theorem callsUpTo_succ (query : Query) (holdings : Holdings) (source : Source) (count : Nat) :
    query.callsUpTo holdings source (count + 1) =
      query.callsUpTo holdings source count ++ query.callsAt holdings source count := by
  rw [callsUpTo, List.range_succ, List.flatMap_append, List.flatMap_cons, List.flatMap_nil,
    List.append_nil, callsUpTo]

theorem le_length_callsUpTo (query : Query) (holdings : Holdings) (source : Source) (count : Nat) :
    count ≤ (query.callsUpTo holdings source count).length := by
  induction count with
  | zero => exact Nat.zero_le _
  | succ count ih =>
    have hcall : 0 < (query.callsAt holdings source count).length := by
      apply List.length_pos_iff.mpr
      exact calls_ne_nil _ _ _
    rw [callsUpTo_succ, List.length_append]
    omega

theorem callsAt_le_callsUpTo (query : Query) (holdings : Holdings) (source : Source)
    {i count : Nat} (hi : i < count) :
    (query.callsAt holdings source i).length ≤ (query.callsUpTo holdings source count).length := by
  have hmem : query.callsAt holdings source i ∈
      (List.range count).map (query.callsAt holdings source) := by
    apply List.mem_map_of_mem
    exact List.mem_range.mpr hi
  rw [callsUpTo, List.flatMap_def]
  exact (List.sublist_flatten_of_mem hmem).length_le

/-- The answers that the questions give one by one, up to an index that does not answer. -/
structure Answered (query : Query) (holdings : Holdings) (source : Source) (data : List Datum) :
    Prop where
  answers : ∀ i (hi : i < data.length),
    query.outcomeAt holdings source i = .ok (.ok data[i])
  fits : data.length ≤ indexCount

/-- A walk over items that answer comes to the step behind them. -/
theorem Answered.collect_yields (hf : host.forced = none) {data : List Datum}
    (h : query.Answered host.holdings source data) {limit : Nat}
    (hlimit : data.length + limit = indexCount) {outcome : Except Fatal (List Datum × Cursor)}
    {calls : List Call}
    (hlast : (Cursor.take limit ⟨query, source, data.length⟩).Yields host outcome calls) :
    (query.collect source).Yields host (outcome.map fun rest => data ++ rest.1)
      (query.callsUpTo host.holdings source data.length ++ calls) := by
  have hanswers (i : Nat) (hi : i < data.length) :
      query.outcomeAt host.holdings source (0 + i) = .ok (.ok data[i]) := by
    rw [Nat.zero_add]
    exact h.answers i hi
  rw [← Nat.zero_add data.length] at hlast
  have htake := (Cursor.take_yields_append hf data 0 hanswers hlast).map Prod.fst
  rw [hlimit, ← List.range_eq_range'] at htake
  have houtcome : (outcome.map fun rest => data ++ rest.1) =
      (outcome.map fun rest => (data ++ rest.1, rest.2)).map Prod.fst := by
    cases outcome <;> rfl
  rw [houtcome]
  exact htake

/-- A walk ends at the first item that is missing. -/
theorem Answered.collect_yields_missing (hf : host.forced = none) {data : List Datum}
    (h : query.Answered host.holdings source data) (hroom : data.length < indexCount)
    (hm : query.outcomeAt host.holdings source data.length = .ok (.error .itemMissing)) :
    (query.collect source).Yields host (.ok data)
      (query.callsUpTo host.holdings source (data.length + 1)) := by
  obtain ⟨limit, hlimit⟩ := Nat.exists_eq_add_of_lt hroom
  have hlast : (Cursor.take (limit + 1) ⟨query, source, data.length⟩).Yields host
      (.ok ([], ⟨query, source, data.length⟩))
      (query.callsAt host.holdings source data.length ++ []) :=
    (Cursor.next_yields_missing hf hm).bind (.done _ host)
  rw [List.append_nil] at hlast
  have hcollect := h.collect_yields hf hlimit.symm hlast
  rw [Except.map, List.append_nil] at hcollect
  rwa [callsUpTo_succ]

/-- A walk aborts at the first item that is there and does not answer. -/
theorem Answered.collect_yields_fault (hf : host.forced = none) {data : List Datum}
    (h : query.Answered host.holdings source data) (hroom : data.length < indexCount)
    (hi : ∀ datum, query.outcomeAt host.holdings source data.length ≠ .ok (.ok datum))
    (hm : query.outcomeAt host.holdings source data.length ≠ .ok (.error .itemMissing)) :
    (query.collect source).Yields host (.error (.exited Program.abortCode))
      (query.callsUpTo host.holdings source (data.length + 1) ++
        Cursor.faultCalls (query.outcomeAt host.holdings source data.length)) := by
  obtain ⟨limit, hlimit⟩ := Nat.exists_eq_add_of_lt hroom
  have hlast : (Cursor.take (limit + 1) ⟨query, source, data.length⟩).Yields host
      (.error (.exited Program.abortCode)) _ :=
    (Cursor.next_yields_fault hf hi hm).bind_fatal _
  have hcollect := h.collect_yields hf hlimit.symm hlast
  rw [callsUpTo_succ, List.append_assoc]
  exact hcollect

theorem Answered.length_lt (hf : host.forced = none) {data : List Datum}
    (h : query.Answered host.holdings source data)
    (hc : ((query.collect source).run host).outcome ≠ .error .cycleOverflow) :
    data.length < indexCount := by
  apply Nat.lt_of_le_of_ne h.fits
  intro hfull
  have hlast : (Cursor.take 0 ⟨query, source, data.length⟩).Yields host
      (.ok ([], ⟨query, source, data.length⟩)) [] := .done _ host
  have haffords := (h.collect_yields hf hfull hlast).affords hc
  have hcalls : indexCount ≤ (query.callsUpTo host.holdings source data.length).length :=
    hfull.ge.trans (query.le_length_callsUpTo host.holdings source data.length)
  rw [List.append_nil] at haffords
  exact host.not_affords_indexCount (haffords.mono hcalls)

/-- The answers before the first index that does not answer. -/
theorem exists_answered (hf : host.forced = none)
    (hc : ((query.collect source).run host).outcome ≠ .error .cycleOverflow) :
    ∃ data : List Datum, query.Answered host.holdings source data ∧ data.length < indexCount ∧
      ∀ datum, query.outcomeAt host.holdings source data.length ≠ .ok (.ok datum) := by
  classical
  have hanswered (count : Nat) (hcount : count ≤ indexCount)
      (h : ∀ i < count, ∃ datum, query.outcomeAt host.holdings source i = .ok (.ok datum)) :
      ∃ data : List Datum, data.length = count ∧ query.Answered host.holdings source data := by
    refine ⟨List.ofFn fun i : Fin count => (h i i.isLt).choose, List.length_ofFn, ?_, ?_⟩
    · intro i hi
      rw [List.getElem_ofFn]
      exact (h i (by simpa using hi)).choose_spec
    · simpa using hcount
  by_cases hstop : ∃ i, i < indexCount ∧
      ∀ datum, query.outcomeAt host.holdings source i ≠ .ok (.ok datum)
  · obtain ⟨hk, hfirst⟩ := Nat.find_spec hstop
    have hbefore (i : Nat) (hi : i < Nat.find hstop) :
        ∃ datum, query.outcomeAt host.holdings source i = .ok (.ok datum) := by
      by_contra hnone
      apply Nat.find_min hstop hi
      refine ⟨hi.trans hk, ?_⟩
      intro datum hd
      exact hnone ⟨datum, hd⟩
    obtain ⟨data, hlength, hdata⟩ := hanswered _ hk.le hbefore
    exact ⟨data, hdata, hlength ▸ hk, hlength ▸ hfirst⟩
  · have hall (i : Nat) (hi : i < indexCount) :
        ∃ datum, query.outcomeAt host.holdings source i = .ok (.ok datum) := by
      by_contra hnone
      apply hstop
      refine ⟨i, hi, ?_⟩
      intro datum hd
      exact hnone ⟨datum, hd⟩
    obtain ⟨data, hlength, hdata⟩ := hanswered _ le_rfl hall
    exact absurd hlength (hdata.length_lt hf hc).ne

end Query

end ScriptHost
