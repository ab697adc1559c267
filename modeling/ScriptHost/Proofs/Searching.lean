import Mathlib.Order.Bounds.Defs
import ScriptHost.Proofs.Collecting

/-! The search for a cell by the digest of its data. It looks at one cell after another and no further
than the first that decides it, so that what stands behind this cell does not matter. -/

namespace ScriptHost

namespace Holdings

/-- The digest that a cell gives for its data, if there is such a cell and it has the field. -/
def dataHash? (holdings : Holdings) (source : Source) (i : Nat) : Option Bytes :=
  (holdings.cells.items source.word)[i]?.bind (·.field? CellField.dataHash.word)

/-- A search for a digest comes to its end at a cell: the cell is not there or does not have the
field, the field is no digest, or it is the digest that is searched for. -/
def Decides (holdings : Holdings) (source : Source) (digest : Digest) (i : Nat) : Prop :=
  ∀ bytes, holdings.dataHash? source i = some bytes → bytes.length ≠ 32 ∨ bytes = digest.bytes

theorem decides_length (holdings : Holdings) (source : Source) (digest : Digest) :
    holdings.Decides source digest (holdings.cells.items source.word).length := by
  intro bytes hbytes
  rw [dataHash?, List.getElem?_eq_none (Nat.le_refl _)] at hbytes
  cases hbytes

end Holdings

namespace Cursor

variable {host : Host} {query : Query} {source : Source} {test : Datum → Bool} {i limit : Nat}
  {datum : Datum}

/-- A search goes on behind the item that a count reaches. -/
def Passes (query : Query) (holdings : Holdings) (source : Source) (test : Datum → Bool) (i : Nat) :
    Prop :=
  ∃ datum, query.outcomeAt holdings source i = .ok (.ok datum) ∧ test datum = false

theorem find_yields_pass (hf : host.forced = none) (hi : Passes query host.holdings source test i)
    {outcome : Except Fatal (Option Nat)} {calls : List Call}
    (hrest : (find test limit ⟨query, source, i + 1⟩).Yields host outcome calls) :
    (find test (limit + 1) ⟨query, source, i⟩).Yields host outcome
      (query.callsAt host.holdings source i ++ calls) := by
  obtain ⟨datum, houtcome, htest⟩ := hi
  apply (next_yields_item hf houtcome).bind
  dsimp only
  rw [htest]
  exact hrest

theorem find_yields_hit (hf : host.forced = none)
    (hi : query.outcomeAt host.holdings source i = .ok (.ok datum)) (ht : test datum = true) :
    (find test (limit + 1) ⟨query, source, i⟩).Yields host (.ok (some i))
      (query.callsAt host.holdings source i) := by
  rw [← List.append_nil (query.callsAt host.holdings source i)]
  apply (next_yields_item hf hi).bind
  dsimp only
  rw [ht]
  exact .done _ host

theorem find_yields_missing (hf : host.forced = none)
    (hi : query.outcomeAt host.holdings source i = .ok (.error .itemMissing)) :
    (find test (limit + 1) ⟨query, source, i⟩).Yields host (.ok none)
      (query.callsAt host.holdings source i) := by
  rw [← List.append_nil (query.callsAt host.holdings source i)]
  exact (next_yields_missing hf hi).bind (.done _ host)

/-- A search whose question aborts is aborted. -/
theorem find_yields_fatal (hf : host.forced = none) {fatal : Fatal}
    (hi : query.outcomeAt host.holdings source i = .error fatal) :
    (find test (limit + 1) ⟨query, source, i⟩).Yields host (.error fatal)
      (query.callsAt host.holdings source i) := by
  have hload := query.load_yields_at hf source i
  rw [hi] at hload
  exact (hload.bind_fatal _).bind_fatal _

/-- A search over items that do not decide it goes on behind them with what is left of its limit. -/
theorem find_yields_append (hf : host.forced = none) (count i : Nat)
    (hpass : ∀ j < count, Passes query host.holdings source test (i + j))
    {outcome : Except Fatal (Option Nat)} {calls : List Call}
    (hrest : (find test limit ⟨query, source, i + count⟩).Yields host outcome calls) :
    (find test (count + limit) ⟨query, source, i⟩).Yields host outcome
      ((List.range' i count).flatMap (query.callsAt host.holdings source) ++ calls) := by
  -- By induction on the items passed, each of which takes one from the limit.
  induction count generalizing i with
  | zero =>
    rw [Nat.zero_add]
    exact hrest
  | succ count ih =>
    have htail (j : Nat) (hj : j < count) :
        Passes query host.holdings source test (i + 1 + j) := by
      have hshift := hpass (j + 1) (Nat.succ_lt_succ hj)
      rwa [← Nat.add_assoc, Nat.add_right_comm] at hshift
    rw [← Nat.add_assoc, Nat.add_right_comm] at hrest
    rw [Nat.add_right_comm, List.range'_succ, List.flatMap_cons, List.append_assoc]
    exact find_yields_pass hf (hpass 0 (Nat.succ_pos _)) (ih (i + 1) htail hrest)

end Cursor

namespace Query

open Cursor (Passes find)

variable {host : Host} {query : Query} {source : Source} {test : Datum → Bool} {k : Nat}

/-- A search is decided by the first item that it does not pass. -/
theorem find_yields (hf : host.forced = none) (hroom : k < indexCount)
    (hpass : ∀ i < k, Passes query host.holdings source test i)
    {outcome : Except Fatal (Option Nat)}
    (hlast : ∀ limit, (find test (limit + 1) ⟨query, source, k⟩).Yields host outcome
      (query.callsAt host.holdings source k)) :
    (find test indexCount { query, source }).Yields host outcome
      (query.callsUpTo host.holdings source (k + 1)) := by
  obtain ⟨limit, hlimit⟩ := Nat.exists_eq_add_of_lt hroom
  have hbefore (j : Nat) (hj : j < k) : Passes query host.holdings source test (0 + j) := by
    rw [Nat.zero_add]
    exact hpass j hj
  have hbehind := hlast limit
  rw [← Nat.zero_add k] at hbehind
  have hfind := Cursor.find_yields_append hf k 0 hbefore hbehind
  rw [Nat.zero_add, ← List.range_eq_range', ← Nat.add_assoc, ← hlimit] at hfind
  rw [callsUpTo_succ]
  exact hfind

/-- A search that does not overflow does not pass all indexes. -/
theorem exists_not_passes (hf : host.forced = none)
    (hc : ((find test indexCount { query, source }).run host).outcome ≠ .error .cycleOverflow) :
    ∃ i < indexCount, ¬ Passes query host.holdings source test i := by
  -- A search that passed all indexes would have paid for a call at each of them.
  by_contra hnone
  have hall (j : Nat) (hj : j < indexCount) :
      Passes query host.holdings source test (0 + j) := by
    by_contra hn
    rw [Nat.zero_add] at hn
    exact hnone ⟨j, hj, hn⟩
  have hdone : (find test 0 ⟨query, source, 0 + indexCount⟩).Yields host (.ok none) [] :=
    .done _ host
  have hfind := Cursor.find_yields_append hf indexCount 0 hall hdone
  have haffords := hfind.affords hc
  rw [← List.range_eq_range', List.append_nil] at haffords
  have hcalls := query.le_length_callsUpTo host.holdings source indexCount
  exact host.not_affords_indexCount (haffords.mono hcalls)

/-- Where a walk collects all answers, a search finds the first that passes its test. -/
theorem Answered.find_yields {data : List Datum} (hf : host.forced = none)
    (h : query.Answered host.holdings source data) (hroom : data.length < indexCount)
    (hm : query.outcomeAt host.holdings source data.length = .ok (.error .itemMissing))
    (test : Datum → Bool) :
    ∃ calls, (find test indexCount { query, source }).Yields host (.ok (data.findIdx? test))
      calls := by
  cases hfound : data.findIdx? test with
  | none =>
    rw [List.findIdx?_eq_none_iff] at hfound
    have hpass (i : Nat) (hi : i < data.length) : Passes query host.holdings source test i :=
      ⟨data[i], h.answers i hi, hfound _ (List.getElem_mem hi)⟩
    exact ⟨_, Query.find_yields hf hroom hpass fun _ => Cursor.find_yields_missing hf hm⟩
  | some k =>
    obtain ⟨hk, hhit, hbefore⟩ := List.findIdx?_eq_some_iff_getElem.mp hfound
    have hpass (i : Nat) (hi : i < k) : Passes query host.holdings source test i := by
      have hlt : i < data.length := hi.trans hk
      exact ⟨data[i], h.answers i hlt, Bool.eq_false_of_not_eq_true (hbefore i hi)⟩
    exact ⟨_, Query.find_yields hf (hk.trans hroom) hpass fun _ =>
      Cursor.find_yields_hit hf (h.answers k hk) hhit⟩

section DataHash

variable {holdings : Holdings} {digest : Digest} {i : Nat}

theorem selected_dataHash (hi : i < indexCount) :
    cellDataHash.selected holdings (UInt64.ofNat i) source =
      Holdings.found .itemMissing (holdings.dataHash? source i) := by
  have hselect : cellDataHash.selected holdings (UInt64.ofNat i) source =
      Holdings.found .itemMissing
        ((holdings.cells.items source.word)[(UInt64.ofNat i).toNat]?.bind
          (·.field? CellField.dataHash.word)) := rfl
  rw [hselect, toNat_ofNat_of_lt hi, Holdings.dataHash?]

theorem outcomeAt_digest (hi : i < indexCount) {found : Digest}
    (hd : holdings.dataHash? source i = some found.bytes) :
    cellDataHash.outcomeAt holdings source i = .ok (.ok (.digest found)) := by
  have hdecode : cellDataHash.decode found.bytes = some (.digest found) :=
    dif_pos found.length_bytes
  rw [outcomeAt, selected_dataHash hi, hd, Holdings.found, outcome, hdecode]

theorem outcomeAt_noDigest (hi : i < indexCount) (hd : holdings.dataHash? source i = none) :
    cellDataHash.outcomeAt holdings source i = .ok (.error .itemMissing) := by
  rw [outcomeAt, selected_dataHash hi, hd, Holdings.found, outcome]

theorem outcomeAt_otherWidth (hi : i < indexCount) {bytes : Bytes}
    (hd : holdings.dataHash? source i = some bytes) (hw : bytes.length ≠ 32) :
    cellDataHash.outcomeAt holdings source i = .error (.exited Program.abortCode) := by
  have hdecode : cellDataHash.decode bytes = none := dif_neg hw
  rw [outcomeAt, selected_dataHash hi, hd, Holdings.found, outcome, hdecode]

theorem callsAt_dataHash (hi : i < indexCount) :
    cellDataHash.callsAt holdings source i =
      Program.exactCalls (cellDataHash.target (UInt64.ofNat i) source) 32
        (Holdings.found .itemMissing (holdings.dataHash? source i)) := by
  rw [← selected_dataHash hi]
  rfl

theorem length_callsAt_dataHash (hi : i < indexCount)
    (hd : ∀ bytes, holdings.dataHash? source i = some bytes → bytes.length = 32) :
    (cellDataHash.callsAt holdings source i).length = 1 := by
  rw [callsAt_dataHash hi]
  cases hfield : holdings.dataHash? source i with
  | none => rfl
  | some bytes =>
    rw [Holdings.found, Program.exactCalls, if_pos (hd bytes hfield)]
    rfl

theorem length_callsAt_otherWidth (hi : i < indexCount) {bytes : Bytes}
    (hd : holdings.dataHash? source i = some bytes) (hw : bytes.length ≠ 32) :
    (cellDataHash.callsAt holdings source i).length = 2 := by
  rw [callsAt_dataHash hi, hd, Holdings.found, Program.exactCalls, if_neg hw]
  rfl

/-- A search passes a cell that has another digest. -/
theorem passes_iff_not_decides (hi : i < indexCount) :
    Passes cellDataHash holdings source (· = .digest digest) i ↔
      ¬ holdings.Decides source digest i := by
  constructor
  · rintro ⟨datum, houtcome, htest⟩ hdecides
    cases hd : holdings.dataHash? source i with
    | none =>
      rw [outcomeAt_noDigest hi hd] at houtcome
      cases houtcome
    | some bytes =>
      rcases hdecides bytes hd with hw | rfl
      · rw [outcomeAt_otherWidth hi hd hw] at houtcome
        cases houtcome
      · rw [outcomeAt_digest hi hd] at houtcome
        cases houtcome
        simp at htest
  · intro hn
    simp only [Holdings.Decides, not_forall, not_or, not_not] at hn
    obtain ⟨bytes, hd, hw, hne⟩ := hn
    refine ⟨.digest ⟨bytes, hw⟩, outcomeAt_digest hi hd, ?_⟩
    apply decide_eq_false
    intro heq
    cases heq
    exact hne rfl

/-- How a search ends at the cell that decides it, given the digest of this cell. -/
def searchOutcome (k : Nat) : Option Bytes → Except Fatal (Option Nat)
  | none => .ok none
  | some bytes => if bytes.length = 32 then .ok (some k) else .error (.exited Program.abortCode)

theorem findCell_yields (hf : host.forced = none) (hroom : k < indexCount)
    (hk : IsLeast { i | host.holdings.Decides source digest i } k) :
    (findCellByDataHash digest source).Yields host
      (searchOutcome k (host.holdings.dataHash? source k))
      (cellDataHash.callsUpTo host.holdings source (k + 1)) := by
  have hpass (i : Nat) (hi : i < k) :
      Passes cellDataHash host.holdings source (· = .digest digest) i := by
    rw [passes_iff_not_decides (hi.trans hroom)]
    intro hdecides
    exact absurd hi (Nat.not_lt_of_le (hk.2 hdecides))
  apply find_yields hf hroom hpass
  intro limit
  cases hd : host.holdings.dataHash? source k with
  | none => exact Cursor.find_yields_missing hf (outcomeAt_noDigest hroom hd)
  | some bytes =>
    rw [searchOutcome]
    by_cases hw : bytes.length = 32
    · obtain rfl := (hk.1 bytes hd).resolve_left (not_not_intro hw)
      rw [if_pos hw]
      exact Cursor.find_yields_hit hf (outcomeAt_digest hroom hd) (decide_eq_true rfl)
    · rw [if_neg hw]
      exact Cursor.find_yields_fatal hf (outcomeAt_otherWidth hroom hd hw)

/-- Every cell that a search passes costs one call. -/
theorem length_callsUpTo_dataHash (hroom : k < indexCount)
    (hk : IsLeast { i | holdings.Decides source digest i } k) :
    (cellDataHash.callsUpTo holdings source (k + 1)).length =
      k + (cellDataHash.callsAt holdings source k).length := by
  have hbefore (count : Nat) (hcount : count ≤ k) :
      (cellDataHash.callsUpTo holdings source count).length = count := by
    induction count with
    | zero => rfl
    | succ count ih =>
      have hlt : count < k := hcount
      have hone : (cellDataHash.callsAt holdings source count).length = 1 := by
        apply length_callsAt_dataHash (hlt.trans hroom)
        intro bytes hd
        by_contra hw
        have hdecides : holdings.Decides source digest count := by
          intro other hother
          rw [hd] at hother
          cases hother
          exact Or.inl hw
        exact absurd hlt (Nat.not_lt_of_le (hk.2 hdecides))
      rw [callsUpTo_succ, List.length_append, ih (Nat.le_of_lt hlt), hone]
  rw [callsUpTo_succ, List.length_append, hbefore k le_rfl]

/-- A search that does not overflow is decided by a cell before the counter is full. -/
theorem exists_decides (hf : host.forced = none)
    (hc : ((findCellByDataHash digest source).run host).outcome ≠ .error .cycleOverflow) :
    ∃ k < indexCount, IsLeast { i | host.holdings.Decides source digest i } k := by
  classical
  obtain ⟨i, hi, hn⟩ := exists_not_passes hf hc
  rw [passes_iff_not_decides hi, not_not] at hn
  have hexists : ∃ i, host.holdings.Decides source digest i := ⟨i, hn⟩
  refine ⟨Nat.find hexists, (Nat.find_min' hexists hn).trans_lt hi, Nat.find_spec hexists, ?_⟩
  intro j hj
  exact Nat.find_min' hexists hj

/-- Hosts that hold the same cells up to the one that decides a search are searched with the same
result. -/
theorem isLeast_decides_congr {other : Holdings}
    (htake : (other.cells.items source.word).take (k + 1) =
      (holdings.cells.items source.word).take (k + 1))
    (hk : IsLeast { i | holdings.Decides source digest i } k) :
    other.dataHash? source k = holdings.dataHash? source k ∧
      IsLeast { i | other.Decides source digest i } k := by
  have hsame (i : Nat) (hi : i ≤ k) :
      other.dataHash? source i = holdings.dataHash? source i := by
    have hlt : i < k + 1 := Nat.lt_succ_of_le hi
    rw [Holdings.dataHash?, Holdings.dataHash?, ← List.getElem?_take_of_lt hlt, htake,
      List.getElem?_take_of_lt hlt]
  refine ⟨hsame k le_rfl, ?_, ?_⟩
  · intro bytes hbytes
    rw [hsame k le_rfl] at hbytes
    exact hk.1 bytes hbytes
  · intro j hj
    by_contra hn
    have hlt : j < k := Nat.lt_of_not_le hn
    apply hn
    apply hk.2
    intro bytes hbytes
    rw [← hsame j (Nat.le_of_lt hlt)] at hbytes
    exact hj bytes hbytes

end DataHash

/-- A search for a digest is decided by the first cell that is missing, gives no digest, or gives the
digest that is searched for, and by no cell behind it. Every cell up to that one costs one call, and
a digest of another width costs the call of the abort as well. Where a walk over the digests comes
to its end, the search finds the place of the digest among those that the walk collects. -/
theorem find_is_first {host : Host} (hf : host.forced = none) (digest : Digest) (source : Source)
    (hc : ((findCellByDataHash digest source).run host).outcome ≠ .error .cycleOverflow) :
    let searched := (findCellByDataHash digest source).run host
    let cells := host.holdings.cells.items source.word
    (∃ k ≤ cells.length, IsLeast { i | host.holdings.Decides source digest i } k ∧
      (host.holdings.dataHash? source k = some digest.bytes →
        searched.outcome = .ok (some k) ∧ searched.trace.length = k + 1) ∧
      (host.holdings.dataHash? source k = none →
        searched.outcome = .ok none ∧ searched.trace.length = k + 1) ∧
      (∀ bytes, host.holdings.dataHash? source k = some bytes → bytes.length ≠ 32 →
        (∃ fatal, searched.outcome = .error fatal ∧
          fatal.message = "Mocked exit called with code -2") ∧ searched.trace.length = k + 2) ∧
      (∀ other : Host, other.forced = none →
        ((findCellByDataHash digest source).run other).outcome ≠ .error .cycleOverflow →
        (other.holdings.cells.items source.word).take (k + 1) = cells.take (k + 1) →
        ((findCellByDataHash digest source).run other).outcome = searched.outcome)) ∧
    (∀ data, ((cellDataHash.collect source).run host).outcome = .ok data →
      searched.outcome = .ok (data.findIdx? (· = .digest digest))) := by
  intro searched cells
  constructor
  · obtain ⟨k, hroom, hk⟩ := exists_decides hf hc
    have hyields := findCell_yields hf hroom hk
    have hrun : searched = _ := hyields.run_host (hyields.affords hc)
    have hlength := length_callsUpTo_dataHash hroom hk
    refine ⟨k, hk.2 (host.holdings.decides_length source digest), hk, ?_, ?_, ?_, ?_⟩
    · intro hd
      have hfits (bytes : Bytes) (hbytes : host.holdings.dataHash? source k = some bytes) :
          bytes.length = 32 := by
        rw [hd] at hbytes
        cases hbytes
        exact digest.length_bytes
      rw [length_callsAt_dataHash hroom hfits] at hlength
      rw [hrun, hd, searchOutcome, if_pos digest.length_bytes]
      exact ⟨rfl, hlength⟩
    · intro hd
      have hfits (bytes : Bytes) (hbytes : host.holdings.dataHash? source k = some bytes) :
          bytes.length = 32 := by
        rw [hd] at hbytes
        cases hbytes
      rw [length_callsAt_dataHash hroom hfits] at hlength
      rw [hrun, hd, searchOutcome]
      exact ⟨rfl, hlength⟩
    · intro bytes hd hw
      rw [length_callsAt_otherWidth hroom hd hw] at hlength
      rw [hrun, hd, searchOutcome, if_neg hw]
      exact ⟨⟨_, rfl, Program.message_abort⟩, hlength⟩
    · intro other hother hover htake
      obtain ⟨hsame, hleast⟩ := isLeast_decides_congr htake hk
      have hagain := findCell_yields hother hroom hleast
      rw [hrun, hagain.run_host (hagain.affords hover), hsame]
  · intro data hdata
    have hcollect : ((cellDataHash.collect source).run host).outcome ≠ .error .cycleOverflow := by
      rw [hdata]
      intro hover
      cases hover
    obtain ⟨answers, hanswers, hroom, hstop⟩ := exists_answered hf hcollect
    rcases (hanswers.walk hf hroom hstop hcollect).2 with ⟨hm, hall, _⟩ | ⟨_, habort, _⟩
    · rw [hdata] at hall
      cases hall
      obtain ⟨calls, hfind⟩ := hanswers.find_yields hf hroom hm (· = .digest digest)
      have hrun : searched = _ := hfind.run_host (hfind.affords hc)
      rw [hrun]
    · rw [hdata] at habort
      cases habort

/-- The second cell is found, although a walk over all three would abort at the third. -/
theorem find_is_first_second :
    let digest : Digest := ⟨List.replicate 32 6, rfl⟩
    let host : Host :=
      { holdings :=
        { cells := ⟨[(1, { bytes := [1], fields := [(1, List.replicate 32 5)] }),
          (1, { bytes := [2], fields := [(1, List.replicate 32 6)] }),
          (1, { bytes := [3], fields := [(1, [6])] })]⟩ } }
    (host.forced = none ∧
      ((findCellByDataHash digest .input).run host).outcome ≠ .error .cycleOverflow) ∧
      ((findCellByDataHash digest .input).run host).outcome = .ok (some 1) ∧
      ((findCellByDataHash digest .input).run host).trace.length = 2 := by
  intro digest host
  have hc : ((findCellByDataHash digest .input).run host).outcome ≠ .error .cycleOverflow := by
    decide +kernel
  obtain ⟨k, _, hk, hfound, _⟩ := (find_is_first (rfl : host.forced = none) digest .input hc).1
  have hpassed : ¬ host.holdings.Decides .input digest 0 := by
    intro hdecides
    exact absurd (hdecides (List.replicate 32 5) rfl) (by decide)
  have hdecides : host.holdings.Decides .input digest 1 := by
    intro bytes hbytes
    cases hbytes
    exact Or.inr rfl
  have hle : k ≤ 1 := hk.2 hdecides
  have hne : k ≠ 0 := by
    rintro rfl
    exact hpassed hk.1
  obtain rfl : k = 1 := by omega
  exact ⟨⟨rfl, hc⟩, hfound rfl⟩

end Query

end ScriptHost
