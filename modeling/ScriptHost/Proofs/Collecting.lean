import Mathlib.Data.List.Basic
import ScriptHost.Proofs.Walk

/-! What a walk collects. It is compared with the loads of the single items on the same host, and,
where the answers need nothing but the item, with the items that were pushed. -/

namespace ScriptHost

/-- The word in a field, if the field is there and has the width of a word. -/
def Item.word? (item : Item) (field : UInt64) : Option UInt64 :=
  (item.field? field).bind fun value =>
    if value.length = 8 then some (UInt64.ofNat (Bytes.littleEndian value)) else none

namespace Query

variable {host : Host} {holdings : Holdings} {query : Query} {source : Source} {data : List Datum}

/-- The byte strings of the items under a source, oldest first, for a question that asks for nothing
but such a byte string. -/
def wholeItems? (query : Query) (holdings : Holdings) (source : Source) : Option (List Bytes) :=
  match query with
  | cell => some ((holdings.cells.items source.word).map (·.bytes))
  | cellData => some ((holdings.cells.items source.word).map (·.data))
  | input => some ((holdings.inputs.items source.word).map (·.bytes))
  | header => some ((holdings.headers.items source.word).map (·.bytes))
  | witness => some (holdings.witnesses.items source.word)
  | _ => none

/-- The field that a question about the epoch of a header asks for. -/
def epochField? : Query → Option HeaderField
  | headerEpochNumber => some .epochNumber
  | headerEpochStartBlockNumber => some .epochStartBlockNumber
  | headerEpochLength => some .epochLength
  | _ => none

theorem toNat_ofNat_of_lt {i : Nat} (hi : i < indexCount) : (UInt64.ofNat i).toNat = i :=
  UInt64.toNat_ofNat_of_lt' hi

theorem outcomeAt_of_getElem? {i : Nat} (hi : i < indexCount) {selected : Except HostError Bytes}
    (hs : (query.selections holdings source)[i]? = some selected) :
    query.outcomeAt holdings source i = query.outcome selected := by
  rw [outcomeAt, selected_eq, toNat_ofNat_of_lt hi, hs, Option.getD_some]

theorem selected_of_itemCount_le {i : Nat} (hi : i < indexCount)
    (h : query.itemCount holdings source ≤ i) :
    query.selected holdings (UInt64.ofNat i) source = .error .itemMissing := by
  have hnone : (query.selections holdings source)[i]? = none := by
    apply List.getElem?_eq_none
    rwa [length_selections]
  rw [selected_eq, toNat_ofNat_of_lt hi, hnone, Option.getD_none]

theorem outcomeAt_of_itemCount_le {i : Nat} (hi : i < indexCount)
    (h : query.itemCount holdings source ≤ i) :
    query.outcomeAt holdings source i = .ok (.error .itemMissing) := by
  rw [outcomeAt, selected_of_itemCount_le hi h, outcome]

/-- Behind the last item nothing answers. -/
theorem lt_itemCount {i : Nat} (hi : i < indexCount) {datum : Datum}
    (h : query.outcomeAt holdings source i = .ok (.ok datum)) :
    i < query.itemCount holdings source := by
  by_contra hn
  rw [outcomeAt_of_itemCount_le hi (Nat.le_of_not_lt hn)] at h
  cases h

theorem Answered.length_le_itemCount (h : query.Answered holdings source data) :
    data.length ≤ query.itemCount holdings source := by
  -- A walk that had passed the last item would have got an answer where nothing is.
  by_contra hn
  have hlt : query.itemCount holdings source < data.length := Nat.lt_of_not_le hn
  have hcount : query.itemCount holdings source < query.itemCount holdings source :=
    lt_itemCount (hlt.trans_le h.fits) (h.answers _ hlt)
  exact absurd hcount (Nat.lt_irrefl _)

/-- The loads of the single items, run on the host as it is before the walk. -/
theorem load_run (hf : host.forced = none) {i count : Nat} (hi : i < count)
    (ha : host.Affords (query.callsUpTo host.holdings source count).length) :
    (query.load (UInt64.ofNat i) source).run host =
      ⟨query.outcomeAt host.holdings source i, query.callsAt host.holdings source i,
        host.spend (query.callsAt host.holdings source i)⟩ := by
  have hone : host.Affords (query.callsAt host.holdings source i).length := by
    apply ha.mono
    exact query.callsAt_le_callsUpTo host.holdings source hi
  exact (query.load_yields_at hf source i).run_host hone

theorem count_yields {outcome : Except Fatal (List Datum)} {calls : List Call}
    (h : (query.collect source).Yields host outcome calls) :
    (query.count source).Yields host (outcome.map List.length) calls :=
  h.map List.length

theorem outcome_whole {items : List Bytes} (hw : query.wholeItems? holdings source = some items)
    (item : Bytes) : query.outcome (.ok item) = .ok (.ok (.bytes item)) := by
  cases query <;> first | rfl | cases hw

theorem selections_whole {items : List Bytes}
    (hw : query.wholeItems? holdings source = some items) :
    query.selections holdings source = items.map .ok := by
  cases query with
  | cell | cellData | input | header =>
    cases hw
    rw [List.map_map]
    rfl
  | witness =>
    cases hw
    rfl
  | _ => cases hw

theorem Answered.outcome_eq (h : query.Answered holdings source data) {i : Nat}
    (hi : i < data.length) {selected : Except HostError Bytes}
    (hs : (query.selections holdings source)[i]? = some selected) :
    query.outcome selected = .ok (.ok data[i]) := by
  rw [← outcomeAt_of_getElem? (hi.trans_le h.fits) hs]
  exact h.answers i hi

/-- A walk over whole items does not stop before the last of them, and collects them all. -/
theorem Answered.eq_whole (h : query.Answered holdings source data)
    (hroom : data.length < indexCount)
    (hi : ∀ datum, query.outcomeAt holdings source data.length ≠ .ok (.ok datum))
    {items : List Bytes} (hw : query.wholeItems? holdings source = some items) :
    data = items.map .bytes ∧ data.length = query.itemCount holdings source := by
  have hsel := selections_whole hw
  have hcount : items.length = query.itemCount holdings source := by
    rw [← length_selections, hsel, List.length_map]
  have hplace (i : Nat) (hlt : i < items.length) :
      (query.selections holdings source)[i]? = some (.ok items[i]) := by
    rw [hsel, List.getElem?_map, List.getElem?_eq_getElem hlt, Option.map_some]
  have hpassed : ¬ data.length < items.length := by
    intro hlt
    apply hi (.bytes items[data.length])
    rw [outcomeAt_of_getElem? hroom (hplace _ hlt), outcome_whole hw]
  have hlength : data.length = items.length := by
    have hle := h.length_le_itemCount
    omega
  refine ⟨?_, hlength.trans hcount⟩
  apply List.ext_getElem
  · rw [hlength, List.length_map]
  · intro i hd hm
    have hanswer := h.outcome_eq hd (hplace i (hlength ▸ hd))
    rw [outcome_whole hw] at hanswer
    rw [List.getElem_map]
    exact (Except.ok.inj (Except.ok.inj hanswer)).symm

theorem form_epoch {field : HeaderField} (hq : query.epochField? = some field) :
    query.form = .word := by
  cases query <;> first | rfl | cases hq

theorem outcome_epoch_of_word {field : HeaderField} (hq : query.epochField? = some field)
    {header : Item} {word : UInt64} (hw : header.word? field.word = some word) :
    query.outcome (Holdings.found .wrongFormat (header.field? field.word)) =
      .ok (.ok (.word word)) := by
  obtain ⟨value, hvalue, hword⟩ := Option.bind_eq_some_iff.mp hw
  rw [hvalue, Holdings.found]
  split at hword
  · next hwidth =>
    cases hword
    simp only [outcome, decode, form_epoch hq, if_pos hwidth]
  · cases hword

/-- A header without such a word does not answer, and it is not passed over as missing. -/
theorem outcome_epoch_of_no_word {field : HeaderField} (hq : query.epochField? = some field)
    {header : Item} (hw : header.word? field.word = none) :
    query.outcome (Holdings.found .wrongFormat (header.field? field.word)) =
        .ok (.error .wrongFormat) ∨
      query.outcome (Holdings.found .wrongFormat (header.field? field.word)) =
        .error (.exited Program.abortCode) := by
  cases hvalue : header.field? field.word with
  | none => exact Or.inl rfl
  | some value =>
    rw [Item.word?, hvalue, Option.bind_some] at hw
    split at hw
    · cases hw
    · next hwidth =>
      right
      simp only [Holdings.found, outcome, decode, form_epoch hq, if_neg hwidth]

theorem selections_epoch {field : HeaderField} (hq : query.epochField? = some field) :
    query.selections holdings source = (holdings.headers.items source.word).map fun header =>
      Holdings.found .wrongFormat (header.field? field.word) := by
  cases query <;> cases hq <;> rfl

/-- The load of the item that a count reaches, on the host as it is. -/
def loadAt (query : Query) (source : Source) (host : Host) (i : Nat) :
    Run (Except HostError Datum) :=
  (query.load (UInt64.ofNat i) source).run host

/-- An index is the first at which a load does not answer. -/
structure FirstRefusal (query : Query) (source : Source) (host : Host) (k : Nat) : Prop where
  answers : ∀ i < k, ∃ datum, (query.loadAt source host i).outcome = .ok (.ok datum)
  refuses : ∀ datum, (query.loadAt source host k).outcome ≠ .ok (.ok datum)

theorem Answered.map_loadAt (hf : host.forced = none)
    (h : query.Answered host.holdings source data)
    (ha : host.Affords (query.callsUpTo host.holdings source (data.length + 1)).length) :
    (List.range data.length).map (fun i => (query.loadAt source host i).outcome) =
      data.map fun datum => .ok (.ok datum) := by
  apply List.ext_getElem
  · simp only [List.length_map, List.length_range]
  · intro i hi _
    have hlt : i < data.length := by simpa using hi
    have hwithin : i < data.length + 1 := by omega
    rw [List.getElem_map, List.getElem_map, List.getElem_range, loadAt, load_run hf hwithin ha]
    exact h.answers i hlt

theorem Answered.firstRefusal (hf : host.forced = none)
    (h : query.Answered host.holdings source data)
    (ha : host.Affords (query.callsUpTo host.holdings source (data.length + 1)).length)
    (hi : ∀ datum, query.outcomeAt host.holdings source data.length ≠ .ok (.ok datum)) :
    query.FirstRefusal source host data.length where
  answers i hlt := by
    have hwithin : i < data.length + 1 := by omega
    rw [loadAt, load_run hf hwithin ha]
    exact ⟨data[i], h.answers i hlt⟩
  refuses := by
    rw [loadAt, load_run hf (Nat.lt_succ_self _) ha]
    exact hi

/-- The calls of the loads of the single items are those of the walk. -/
theorem flatMap_loadAt (hf : host.forced = none) {count : Nat}
    (ha : host.Affords (query.callsUpTo host.holdings source count).length) :
    (List.range count).flatMap (fun i => (query.loadAt source host i).trace) =
      query.callsUpTo host.holdings source count := by
  rw [callsUpTo]
  apply List.flatMap_congr
  intro i hi
  rw [loadAt, load_run hf (List.mem_range.mp hi) ha]

theorem selected_of_refused {i : Nat} {error : HostError}
    (h : query.outcomeAt holdings source i = .ok (.error error)) :
    query.selected holdings (UInt64.ofNat i) source = .error error := by
  rw [outcomeAt] at h
  cases hs : query.selected holdings (UInt64.ofNat i) source with
  | error refusal =>
    rw [hs] at h
    cases h
    rfl
  | ok item =>
    rw [hs, outcome] at h
    split at h <;> cases h

theorem outcomeAt_cases {i : Nat}
    (hi : ∀ datum, query.outcomeAt holdings source i ≠ .ok (.ok datum)) :
    query.outcomeAt holdings source i = .ok (.error .itemMissing) ∨
      query.outcomeAt holdings source i = .ok (.error .wrongFormat) ∨
      query.outcomeAt holdings source i = .error (.exited Program.abortCode) := by
  cases ho : query.outcomeAt holdings source i with
  | error fatal =>
    cases outcome_fatal ho
    right
    right
    rfl
  | ok answer =>
    cases answer with
    | ok datum => exact absurd ho (hi datum)
    | error error =>
      rcases Holdings.select_error_cases (selected_of_refused ho) with rfl | ⟨rfl, _⟩
      · left
        rfl
      · right
        left
        rfl

/-- A walk and its count, told by the loads up to the first that does not answer: a missing item
ends them there, and everything else aborts them. -/
theorem Answered.walk (hf : host.forced = none) (h : query.Answered host.holdings source data)
    (hroom : data.length < indexCount)
    (hi : ∀ datum, query.outcomeAt host.holdings source data.length ≠ .ok (.ok datum))
    (hc : ((query.collect source).run host).outcome ≠ .error .cycleOverflow) :
    host.Affords (query.callsUpTo host.holdings source (data.length + 1)).length ∧
      ((query.outcomeAt host.holdings source data.length = .ok (.error .itemMissing) ∧
        ((query.collect source).run host).outcome = .ok data ∧
        ((query.count source).run host).outcome = .ok data.length ∧
        ((query.collect source).run host).trace =
          query.callsUpTo host.holdings source (data.length + 1) ∧
        ((query.count source).run host).trace =
          query.callsUpTo host.holdings source (data.length + 1)) ∨
      (query.outcomeAt host.holdings source data.length ≠ .ok (.error .itemMissing) ∧
        ((query.collect source).run host).outcome = .error (.exited Program.abortCode) ∧
        ((query.count source).run host).outcome = .error (.exited Program.abortCode))) := by
  by_cases hm : query.outcomeAt host.holdings source data.length = .ok (.error .itemMissing)
  · have hcollect := h.collect_yields_missing hf hroom hm
    have ha := hcollect.affords hc
    have hcount := count_yields hcollect
    refine ⟨ha, ?_⟩
    left
    rw [hcollect.run_host ha, hcount.run_host ha]
    exact ⟨hm, rfl, rfl, rfl, rfl⟩
  · have hcollect := h.collect_yields_fault hf hroom hi hm
    have ha := hcollect.affords hc
    have hcount := count_yields hcollect
    constructor
    · apply ha.mono
      rw [List.length_append]
      omega
    · right
      rw [hcollect.run_host ha, hcount.run_host ha]
      exact ⟨hm, rfl, rfl⟩

/-- A walk over whole items that does not overflow collects them all. -/
theorem collect_whole (hf : host.forced = none)
    (hc : ((query.collect source).run host).outcome ≠ .error .cycleOverflow) {items : List Bytes}
    (hw : query.wholeItems? host.holdings source = some items) :
    ((query.collect source).run host).outcome = .ok (items.map .bytes) := by
  obtain ⟨data, h, hroom, hi⟩ := exists_answered hf hc
  obtain ⟨rfl, hlength⟩ := h.eq_whole hroom hi hw
  rcases (h.walk hf hroom hi hc).2 with ⟨_, hcollect, _⟩ | ⟨hm, _⟩
  · exact hcollect
  · rw [hlength] at hroom hm
    exact absurd (outcomeAt_of_itemCount_le hroom le_rfl) hm

theorem selections_epoch_getElem? {field : HeaderField} (hq : query.epochField? = some field)
    {i : Nat} (hi : i < (holdings.headers.items source.word).length) :
    (query.selections holdings source)[i]? = some (Holdings.found .wrongFormat
      ((holdings.headers.items source.word)[i].field? field.word)) := by
  rw [selections_epoch hq, List.getElem?_map, List.getElem?_eq_getElem hi, Option.map_some]

/-- A walk that has passed all headers has collected the word of every one of them. -/
theorem Answered.exists_words (h : query.Answered holdings source data) {field : HeaderField}
    (hq : query.epochField? = some field)
    (hlength : data.length = (holdings.headers.items source.word).length) :
    ∃ words : List UInt64,
      (holdings.headers.items source.word).map (·.word? field.word) = words.map some ∧
      data = words.map .word := by
  have hword (i : Nat) (hd : i < data.length)
      (hi : i < (holdings.headers.items source.word).length) :
      ∃ word, (holdings.headers.items source.word)[i].word? field.word = some word ∧
        data[i] = .word word := by
    have hanswer := h.outcome_eq hd (selections_epoch_getElem? hq hi)
    cases hw : (holdings.headers.items source.word)[i].word? field.word with
    | none =>
      rcases outcome_epoch_of_no_word hq hw with hstop | hstop <;>
        cases hstop.symm.trans hanswer
    | some word =>
      rw [outcome_epoch_of_word hq hw] at hanswer
      exact ⟨word, rfl, (Except.ok.inj (Except.ok.inj hanswer)).symm⟩
  refine ⟨(holdings.headers.items source.word).map fun header =>
    (header.word? field.word).getD 0, ?_, ?_⟩
  · apply List.ext_getElem
    · simp only [List.length_map]
    · intro i hi _
      rw [List.length_map] at hi
      obtain ⟨word, hw, _⟩ := hword i (hlength ▸ hi) hi
      simp only [List.getElem_map, hw, Option.getD_some]
  · apply List.ext_getElem
    · simp only [List.length_map, hlength]
    · intro i hd _
      obtain ⟨word, hw, hdatum⟩ := hword i hd (hlength ▸ hd)
      simp only [List.getElem_map, hw, Option.getD_some, hdatum]

/-- A walk over the headers that does not overflow yields the word of every one of them, or aborts
at one that has none. -/
theorem collect_epoch (hf : host.forced = none)
    (hc : ((query.collect source).run host).outcome ≠ .error .cycleOverflow) {field : HeaderField}
    (hq : query.epochField? = some field) :
    (∃ words : List UInt64,
      (host.holdings.headers.items source.word).map (·.word? field.word) = words.map some ∧
      ((query.collect source).run host).outcome = .ok (words.map .word)) ∨
    (∃ header ∈ host.holdings.headers.items source.word, header.word? field.word = none ∧
      ((query.collect source).run host).outcome = .error (.exited Program.abortCode)) := by
  obtain ⟨data, h, hroom, hi⟩ := exists_answered hf hc
  have hwalk := (h.walk hf hroom hi hc).2
  have hcount : query.itemCount host.holdings source =
      (host.holdings.headers.items source.word).length := by
    rw [← length_selections, selections_epoch hq, List.length_map]
  rcases h.length_le_itemCount.lt_or_eq with hlt | hlength
  · rw [hcount] at hlt
    have houtcome := outcomeAt_of_getElem? hroom (selections_epoch_getElem? hq hlt)
    right
    refine ⟨_, List.getElem_mem hlt, ?_⟩
    cases hword : (host.holdings.headers.items source.word)[data.length].word? field.word with
    | some word => exact absurd (houtcome.trans (outcome_epoch_of_word hq hword)) (hi _)
    | none =>
      rcases hwalk with ⟨hmissing, _⟩ | ⟨_, hcollect, _⟩
      · rcases outcome_epoch_of_no_word hq hword with hstop | hstop <;>
          cases (houtcome.trans hstop).symm.trans hmissing
      · exact ⟨rfl, hcollect⟩
  · obtain ⟨words, hwords, rfl⟩ := h.exists_words hq (hlength.trans hcount)
    rcases hwalk with ⟨_, hcollect, _⟩ | ⟨hm, _⟩
    · left
      exact ⟨words, hwords, hcollect⟩
    · rw [hlength] at hroom hm
      exact absurd (outcomeAt_of_itemCount_le hroom le_rfl) hm

/-- A walk is the loads of the single items up to the first that does not answer. Where that item is
missing, the walk yields the answers before it and makes the calls of those loads; everything else
aborts it. So no whole item is lost, and no header is passed over. -/
theorem collect_eq_loads {host : Host} (hf : host.forced = none) (query : Query) (source : Source)
    (hc : ((query.collect source).run host).outcome ≠ .error .cycleOverflow) :
    let collected := (query.collect source).run host
    let counted := (query.count source).run host
    (∃ k, query.FirstRefusal source host k ∧ k < indexCount ∧
      k ≤ query.itemCount host.holdings source ∧
      ((query.loadAt source host k).outcome = .ok (.error .itemMissing) →
        (∃ data : List Datum, collected.outcome = .ok data ∧
          (List.range k).map (fun i => (query.loadAt source host i).outcome) =
            data.map fun datum => .ok (.ok datum)) ∧
        counted.outcome = .ok k ∧
        collected.trace =
          (List.range (k + 1)).flatMap (fun i => (query.loadAt source host i).trace) ∧
        counted.trace = collected.trace) ∧
      ((query.loadAt source host k).outcome ≠ .ok (.error .itemMissing) →
        ((query.loadAt source host k).outcome = .ok (.error .wrongFormat) ∨
          (query.loadAt source host k).outcome = .error (.exited (-2))) ∧
        collected.outcome = .error (.exited (-2)) ∧ counted.outcome = .error (.exited (-2)))) ∧
    (∀ items, query.wholeItems? host.holdings source = some items →
      collected.outcome = .ok (items.map .bytes)) ∧
    (∀ field, query.epochField? = some field →
      (∃ words : List UInt64,
        (host.holdings.headers.items source.word).map (·.word? field.word) = words.map some ∧
        collected.outcome = .ok (words.map .word)) ∨
      (∃ header ∈ host.holdings.headers.items source.word, header.word? field.word = none ∧
        collected.outcome = .error (.exited (-2)))) := by
  intro collected counted
  refine ⟨?_, fun items hw => collect_whole hf hc hw, fun field hq => collect_epoch hf hc hq⟩
  obtain ⟨data, h, hroom, hi⟩ := exists_answered hf hc
  obtain ⟨ha, hwalk⟩ := h.walk hf hroom hi hc
  have hlast : (query.loadAt source host data.length).outcome =
      query.outcomeAt host.holdings source data.length := by
    rw [loadAt, load_run hf (Nat.lt_succ_self _) ha]
  refine ⟨data.length, h.firstRefusal hf ha hi, hroom, h.length_le_itemCount, ?_, ?_⟩
  · intro hmissing
    rcases hwalk with ⟨_, hcollect, hcount, htrace, hcalls⟩ | ⟨hm, _⟩
    · refine ⟨⟨data, hcollect, h.map_loadAt hf ha⟩, hcount, ?_, hcalls.trans htrace.symm⟩
      rw [flatMap_loadAt hf ha]
      exact htrace
    · exact absurd (hlast.symm.trans hmissing) hm
  · intro hpresent
    rcases hwalk with ⟨hm, _⟩ | ⟨hm, hcollect, hcount⟩
    · exact absurd (hlast.trans hm) hpresent
    · refine ⟨?_, hcollect, hcount⟩
      rw [hlast]
      exact (outcomeAt_cases hi).resolve_left hm

/-- Two of three cells are inputs, and a walk over their data finds both. -/
theorem collect_two_inputs :
    let host : Host :=
      { holdings :=
        { cells := ⟨[(1, { bytes := [1], data := [7, 8] }), (2, { bytes := [2] }),
          (1, { bytes := [3], data := [9] })]⟩ } }
    (host.forced = none ∧
      ((cellData.collect .input).run host).outcome ≠ .error .cycleOverflow) ∧
      ((cellData.collect .input).run host).outcome = .ok [.bytes [7, 8], .bytes [9]] := by
  intro host
  have hc : ((cellData.collect .input).run host).outcome ≠ .error .cycleOverflow := by
    decide +kernel
  have hcollect := collect_eq_loads (rfl : host.forced = none) cellData .input hc
  exact ⟨⟨rfl, hc⟩, hcollect.2.1 [[7, 8], [9]] rfl⟩

end Query

end ScriptHost
