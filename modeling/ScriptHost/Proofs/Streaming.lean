import Mathlib.Data.List.Range
import ScriptHost.Proofs.WholeLoad

/-! Loads in parts. A buffer that is filled by two loads, the second where the first ends, holds
what a single load brings, and so an item that is fetched in chunks is the item that is loaded
whole. -/

namespace ScriptHost

namespace Bytes

/-- What is written over two buffers in a row goes into the first as far as it fits, and on into the
second. -/
theorem overwrite_append (first last data : Bytes) :
    overwrite (first ++ last) data =
      overwrite first (data.take first.length) ++ overwrite last (data.drop first.length) := by
  rcases Nat.le_total data.length first.length with hshort | hfull
  · have hnone : data.drop first.length = [] := List.drop_of_length_le hshort
    have hfits : data.length ≤ (first ++ last).length := by
      rw [List.length_append]
      omega
    calc overwrite (first ++ last) data
        = data ++ (first.drop data.length ++ last) := by
          rw [overwrite, List.take_of_length_le hfits, List.drop_append_of_le_length hshort]
      _ = overwrite first data ++ last := by
          rw [overwrite, List.take_of_length_le hshort, List.append_assoc]
      _ = overwrite first (data.take first.length) ++ overwrite last (data.drop first.length) := by
          rw [hnone, overwrite_nil, List.take_of_length_le hshort]
  · have hlength : (data.take first.length).length = first.length :=
      List.length_take_of_le hfull
    have hfirst : overwrite first (data.take first.length) = data.take first.length := by
      rw [overwrite, hlength, List.drop_length, List.append_nil, List.take_of_length_le]
      exact Nat.le_of_eq hlength
    have hkept : (first ++ last).drop data.length = last.drop (data.drop first.length).length := by
      rw [List.drop_append, List.drop_of_length_le hfull, List.nil_append, List.length_drop]
    calc overwrite (first ++ last) data
        = data.take first.length ++ (data.drop first.length).take last.length ++
            last.drop (data.drop first.length).length := by
          rw [overwrite, hkept, List.length_append, List.take_add]
      _ = overwrite first (data.take first.length) ++ overwrite last (data.drop first.length) := by
          rw [hfirst, overwrite, List.append_assoc]

theorem take_window (item : Bytes) (offset first last : Nat) :
    (window item offset (first + last)).take first = window item offset first := by
  rw [window, List.take_take, Nat.min_eq_left (Nat.le_add_right first last), window]

theorem drop_window (item : Bytes) (offset first last : Nat) :
    (window item offset (first + last)).drop first = window item (offset + first) last := by
  rw [window, List.drop_take, List.drop_drop, Nat.add_sub_cancel_left, window]

/-- A window that is written over two buffers in a row is two windows, and the second begins where
the first ends. -/
theorem overwrite_window_append (first last item : Bytes) (offset : Nat) :
    overwrite (first ++ last) (window item offset (first ++ last).length) =
      overwrite first (window item offset first.length) ++
        overwrite last (window item (offset + first.length) last.length) := by
  rw [overwrite_append, List.length_append, take_window, drop_window]

/-- The bytes of a window are at the start of the buffer that it is written over. -/
theorem take_overwrite_chunk (buffer item : Bytes) (offset : Nat) :
    (overwrite buffer (window item offset buffer.length)).take
        (min buffer.length (item.length - offset)) = window item offset buffer.length := by
  have hlength := length_window item offset buffer.length
  rw [← hlength]
  apply take_overwrite
  rw [hlength]
  exact Nat.min_le_left _ _

end Bytes

namespace Program

variable {host : Host} {target : Target} {item : Bytes}

/-- Loads a target in chunks through one buffer, until the offset reaches the length that the loads
report, and joins the chunks. -/
def stream (target : Target) (buffer : Bytes) (h : 0 < buffer.length) (offset : Nat) :
    Program (Except HostError Bytes) :=
  (load target buffer (UInt64.ofNat offset)).bind fun loaded =>
    match loaded.answer with
    | .error error => done (.error error)
    | .ok length =>
      let chunk := loaded.buffer.take (min buffer.length (length - offset))
      if offset + buffer.length < min length UInt64.size then
        have hnext : 0 < loaded.buffer.length := by rwa [loaded.length_buffer]
        (stream target loaded.buffer hnext (offset + buffer.length)).bind fun rest =>
          done (rest.map (chunk ++ ·))
      else done (.ok chunk)
termination_by UInt64.size - offset
decreasing_by omega

/-- The calls that fetch the bytes of an item from an offset on, a chunk each. There is one call
even where no byte is left. -/
def chunkCalls (target : Target) (chunk length offset : Nat) : List Call :=
  (List.range ((length - offset - 1) / chunk + 1)).map fun i =>
    .ofTarget target chunk (UInt64.ofNat (offset + chunk * i))

theorem chunkCalls_last {chunk length offset : Nat} (h : 0 < chunk)
    (hlast : length ≤ offset + chunk) :
    chunkCalls target chunk length offset = [.ofTarget target chunk (UInt64.ofNat offset)] := by
  have hone : (length - offset - 1) / chunk = 0 := by
    apply Nat.div_eq_of_lt
    omega
  rw [chunkCalls, hone]
  rfl

theorem chunkCalls_more {chunk length offset : Nat} (h : 0 < chunk)
    (hmore : offset + chunk < length) :
    chunkCalls target chunk length offset =
      .ofTarget target chunk (UInt64.ofNat offset) ::
        chunkCalls target chunk length (offset + chunk) := by
  have hcount : (length - offset - 1) / chunk = (length - (offset + chunk) - 1) / chunk + 1 := by
    have hsum : length - offset - 1 = length - (offset + chunk) - 1 + chunk := by omega
    rw [hsum, Nat.add_div_right _ h]
  rw [chunkCalls, hcount, List.range_succ_eq_map, List.map_cons, List.map_map, chunkCalls]
  congr 1
  apply List.map_congr_left
  intro i _
  have hplace : offset + chunk * (i + 1) = offset + chunk + chunk * i := by
    rw [Nat.mul_succ]
    omega
  simp only [Function.comp_apply, Nat.succ_eq_add_one, hplace]

variable {buffer rest : Bytes} {offset : Nat} {calls : List Call}

theorem stream_yields_error (hf : host.forced = none) (hs : host.Steady target.resource)
    {error : HostError} (hread : host.holdings.read target = .error error) (buffer : Bytes)
    (h : 0 < buffer.length) (offset : Nat) :
    (stream target buffer h offset).Yields host (.ok (.error error))
      [.ofTarget target buffer.length (UInt64.ofNat offset)] := by
  have hload := load_yields hf hs buffer (UInt64.ofNat offset)
  rw [hread] at hload
  rw [stream]
  exact hload.bind (.done _ host)

/-- A chunk that reaches the end of the item is the last. -/
theorem stream_yields_last (hf : host.forced = none) (hs : host.Steady target.resource)
    (hread : host.holdings.read target = .ok item) (h : 0 < buffer.length)
    (hoffset : offset < UInt64.size) (hlast : item.length ≤ offset + buffer.length) :
    (stream target buffer h offset).Yields host
      (.ok (.ok (Bytes.window item offset buffer.length)))
      [.ofTarget target buffer.length (UInt64.ofNat offset)] := by
  have hload := load_yields hf hs buffer (UInt64.ofNat offset)
  have hplace : (UInt64.ofNat offset).toNat = offset := UInt64.toNat_ofNat_of_lt hoffset
  have hstops : ¬ offset + buffer.length < min item.length UInt64.size := by omega
  rw [hread] at hload
  rw [stream]
  apply hload.bind
  simp only [Loaded.ofSelected, Delivery.ofSelected, Except.map, hplace, if_neg hstops,
    Bytes.take_overwrite_chunk]
  exact .done _ host

/-- A chunk before the end of the item is followed by what the rest of the stream brings. -/
theorem stream_yields_more (hf : host.forced = none) (hs : host.Steady target.resource)
    (hread : host.holdings.read target = .ok item) (hword : item.length < UInt64.size)
    (h : 0 < buffer.length) (hmore : offset + buffer.length < item.length)
    (hnext : ∀ (again : Bytes) (h' : 0 < again.length), again.length = buffer.length →
      (stream target again h' (offset + buffer.length)).Yields host (.ok (.ok rest)) calls) :
    (stream target buffer h offset).Yields host
      (.ok (.ok (Bytes.window item offset buffer.length ++ rest)))
      (.ofTarget target buffer.length (UInt64.ofNat offset) :: calls) := by
  have hload := load_yields hf hs buffer (UInt64.ofNat offset)
  have hplace : (UInt64.ofNat offset).toNat = offset := by
    apply UInt64.toNat_ofNat_of_lt
    omega
  have hgoes : offset + buffer.length < min item.length UInt64.size := by omega
  rw [hread] at hload
  rw [stream]
  apply hload.bind
  simp only [Loaded.ofSelected, Delivery.ofSelected, Except.map, hplace, if_pos hgoes,
    Bytes.take_overwrite_chunk]
  have hkept := Bytes.length_overwrite buffer (Bytes.window item offset buffer.length)
  have hrest := hnext _ (by rwa [hkept]) hkept
  exact hrest.map (Except.map (Bytes.window item offset buffer.length ++ ·))

/-- A stream brings what is left of an item from its offset on. -/
theorem stream_yields (hf : host.forced = none) (hs : host.Steady target.resource)
    (hread : host.holdings.read target = .ok item) (hword : item.length < UInt64.size)
    (h : 0 < buffer.length) (hoffset : offset < UInt64.size) :
    (stream target buffer h offset).Yields host (.ok (.ok (item.drop offset)))
      (chunkCalls target buffer.length item.length offset) := by
  -- With every chunk there is less left of the item.
  induction hleft : item.length - offset using Nat.strong_induction_on
    generalizing buffer offset with
  | h left ih =>
    by_cases hmore : offset + buffer.length < item.length
    · have hless : item.length - (offset + buffer.length) < left := by omega
      have hsplit : item.drop offset =
          Bytes.window item offset buffer.length ++ item.drop (offset + buffer.length) := by
        rw [← List.drop_drop, Bytes.window, List.take_append_drop]
      rw [chunkCalls_more h hmore, hsplit]
      apply stream_yields_more hf hs hread hword h hmore
      intro again h' hagain
      rw [← hagain] at hless hmore ⊢
      exact ih _ hless h' (hmore.trans hword) rfl
    · have hlast : item.length ≤ offset + buffer.length := Nat.le_of_not_lt hmore
      have hrest : item.drop offset = Bytes.window item offset buffer.length := by
        rw [Bytes.window, List.take_of_length_le]
        rw [List.length_drop]
        omega
      rw [chunkCalls_last h hlast, hrest]
      exact stream_yields_last hf hs hread h hoffset hlast

/-- A load of either part of a buffer, the second from where the first ends, brings there what the
load of the whole buffer brings, and reports the same. -/
theorem load_parts (hf : host.forced = none) (hs : host.Steady target.resource)
    (first last : Bytes) {offset : UInt64} (hword : offset.toNat + first.length < UInt64.size) :
    let parted := offset + UInt64.ofNat first.length
    ∃ (all : Loaded (first ++ last).length) (before : Loaded first.length)
      (after : Loaded last.length),
      (load target (first ++ last) offset).Yields host (.ok all)
        [.ofTarget target (first ++ last).length offset] ∧
      (load target first offset).Yields host (.ok before) [.ofTarget target first.length offset] ∧
      (load target last parted).Yields host (.ok after) [.ofTarget target last.length parted] ∧
      all.buffer = before.buffer ++ after.buffer ∧
      before.answer = all.answer ∧ after.answer = all.answer := by
  intro parted
  have hparted : parted.toNat = offset.toNat + first.length := by
    have hfirst : (UInt64.ofNat first.length).toNat = first.length := by
      apply UInt64.toNat_ofNat_of_lt
      omega
    rw [UInt64.toNat_add, hfirst, Nat.mod_eq_of_lt hword]
  refine ⟨_, _, _, load_yields hf hs _ _, load_yields hf hs _ _, load_yields hf hs _ _, ?_, rfl,
    rfl⟩
  cases host.holdings.read target with
  | error error => rfl
  | ok item =>
    simp only [Loaded.ofSelected, Delivery.ofSelected, hparted]
    exact Bytes.overwrite_window_append first last item offset.toNat

end Program

namespace Session

/-- A load is the sum of its parts. Loads of the two parts of a buffer leave the bytes and report
the length that a load of the whole buffer does, so that an item which is fetched in chunks of any
size is what its loader gives back, and its length is what a load into an empty buffer reports. -/
theorem windows_compose {host : Host} (hf : host.forced = none) (hn : host.nextScript = none) :
    (∀ (target : Target) (first last : Bytes) (offset : UInt64),
      offset.toNat + first.length ≤ 2 ^ 64 - 1 →
      let whole := (Program.load target (first ++ last) offset).run host
      let left := (Program.load target first offset).run host
      let right := (Program.load target last (offset + UInt64.ofNat first.length)).run left.host
      whole.outcome ≠ .error .cycleOverflow → right.outcome ≠ .error .cycleOverflow →
      ∃ all before after, whole.outcome = .ok all ∧ left.outcome = .ok before ∧
        right.outcome = .ok after ∧ all.buffer = before.buffer ++ after.buffer ∧
        before.answer = all.answer ∧ after.answer = all.answer) ∧
    (∀ loader : Loader, loader.entry.form = .bytes → ∃ target, loader.Shares target) ∧
    (∀ loader : Loader, loader.entry.form = .bytes → ∀ target, loader.Shares target →
      ∀ (buffer : Bytes) (h : 0 < buffer.length),
      let streamed := (Program.stream target buffer h 0).run host
      let owned := loader.action.program.run host
      let probe := (Program.load target [] 0).run host
      streamed.outcome ≠ .error .cycleOverflow → owned.outcome ≠ .error .cycleOverflow →
      (∀ item, loader.Finds host.holdings item → item.length ≤ 2 ^ 64 - 1 →
        streamed.outcome = .ok (.ok item) ∧
        owned.outcome = .ok (.value (.datum (.bytes item))) ∧
        streamed.trace = (List.range ((item.length - 1) / buffer.length + 1)).map (fun i =>
          loader.call buffer.length (UInt64.ofNat (buffer.length * i))) ∧
        ∃ left, probe.outcome = .ok left ∧ left.answer = .ok item.length) ∧
      ((∀ item, ¬ loader.Finds host.holdings item) →
        streamed.outcome = .ok (.error .itemMissing) ∧
        owned.outcome = .ok (.refused .itemMissing {}))) := by
  refine ⟨?_, ?_, ?_⟩
  · intro target first last offset hword whole left right hwhole hright
    have hsteady : host.Steady target.resource := fun _ => hn
    have hsize : offset.toNat + first.length < UInt64.size := by
      simp only [UInt64.size]
      omega
    obtain ⟨all, before, after, hall, hbefore, hafter, hjoined⟩ :=
      Program.load_parts hf hsteady first last hsize
    have hroom := hall.affords hwhole
    have hleft : left = _ := hbefore.run_host hroom
    refine ⟨all, before, after, ?_, ?_, ?_, hjoined⟩
    · exact congrArg Run.outcome (hall.run_host hroom)
    · exact congrArg Run.outcome hleft
    · have hsecond := hafter.spend [.ofTarget target first.length offset]
      simp only [right, hleft] at hright ⊢
      exact congrArg Run.outcome (hsecond.run_host (hsecond.affords hright))
  · intro loader hform
    exact Loader.exists_shares hform
  · intro loader hform target hshares buffer h streamed owned probe hstreamed howned
    have hsteady : host.Steady target.resource := fun _ => hn
    have howns := Loader.action_yields hf hn hform
    have howned' := howns.run_host (howns.affords howned)
    constructor
    · intro item hi hword
      have hsize : item.length < UInt64.size := by
        simp only [UInt64.size]
        omega
      have hread : host.holdings.read target = .ok item := hshares.fits.read_of_finds hi
      have hstream := Program.stream_yields hf hsteady hread hsize h (by decide : 0 < UInt64.size)
      have hroom := hstream.affords hstreamed
      have hrun : streamed = _ := hstream.run_host hroom
      have hprobe := Program.load_yields hf hsteady [] 0
      have hone : 1 ≤ (Program.chunkCalls target buffer.length item.length 0).length := by
        rw [Program.chunkCalls, List.length_map, List.length_range]
        exact Nat.le_add_left 1 _
      have hanswer := hprobe.run_host (hroom.mono hone)
      rw [loader.fits_target.read_of_finds hi] at howned'
      rw [hread] at hanswer
      refine ⟨congrArg Run.outcome hrun, congrArg Run.outcome howned', ?_, _,
        congrArg Run.outcome hanswer, rfl⟩
      rw [hrun, Program.chunkCalls]
      simp only [Nat.zero_add, Nat.sub_zero, hshares.fits.ofTarget_eq]
    · intro habsent
      have hlacks : ¬ loader.LacksField host.holdings := Loader.not_lacksField hform
      have hread := hshares.fits.read_of_absent habsent hlacks
      have hstream := Program.stream_yields_error hf hsteady hread buffer h 0
      have hrun : streamed = _ := hstream.run_host (hstream.affords hstreamed)
      rw [loader.fits_target.read_of_absent habsent hlacks] at howned'
      exact ⟨congrArg Run.outcome hrun, congrArg Run.outcome howned'⟩

/-- The data of a cell is five bytes, which come in three chunks of two. From the fourth byte on
they fill the first part of a buffer and a byte of the second. -/
theorem windows_compose_data :
    let host : Host :=
      { holdings := { cells := ⟨[(1, { bytes := [], data := [1, 2, 3, 4, 5] })]⟩ } }
    let target : Target := .cellData 0 .input
    let loader : Loader := .item .cellData 0 .input
    let streamed := (Program.stream target [9, 9] (by decide) 0).run host
    let owned := loader.action.program.run host
    let whole := (Program.load target ([9] ++ [9, 9, 9]) 3).run host
    let left := (Program.load target [9] 3).run host
    let right := (Program.load target [9, 9, 9] 4).run left.host
    (host.forced = none ∧ host.nextScript = none ∧ loader.entry.form = .bytes ∧
      loader.Shares target ∧ streamed.outcome ≠ .error .cycleOverflow ∧
      owned.outcome ≠ .error .cycleOverflow ∧ whole.outcome ≠ .error .cycleOverflow ∧
      right.outcome ≠ .error .cycleOverflow) ∧
      streamed.outcome = .ok (.ok [1, 2, 3, 4, 5]) ∧
      owned.outcome = .ok (.value (.datum (.bytes [1, 2, 3, 4, 5]))) ∧
      streamed.trace = [.load 2092 2 0 0 1 0, .load 2092 2 2 0 1 0, .load 2092 2 4 0 1 0] ∧
      ∃ all before after, whole.outcome = .ok all ∧ left.outcome = .ok before ∧
        right.outcome = .ok after ∧ all.buffer = before.buffer ++ after.buffer ∧
        all.buffer = [4, 5, 9, 9] ∧ after.buffer = [5, 9, 9] := by
  intro host target loader streamed owned whole left right
  obtain ⟨hparts, -, hstreams⟩ := windows_compose (rfl : host.forced = none) rfl
  have hform : loader.entry.form = .bytes := rfl
  have hshares : loader.Shares target := .cellData 0 .input
  have hstreamed : streamed.outcome ≠ .error .cycleOverflow := by decide +kernel
  have howned : owned.outcome ≠ .error .cycleOverflow := by
    have hyields := Loader.action_yields (rfl : host.forced = none) rfl hform
    rw [hyields.outcome_run, if_pos (by decide +kernel)]
    exact nofun
  have hbytes : whole.outcome.map Loaded.buffer = .ok [4, 5, 9, 9] := by decide +kernel
  have hbytes' : right.outcome.map Loaded.buffer = .ok [5, 9, 9] := by decide +kernel
  have hwhole : whole.outcome ≠ .error .cycleOverflow := by
    intro hover
    rw [hover] at hbytes
    cases hbytes
  have hright : right.outcome ≠ .error .cycleOverflow := by
    intro hover
    rw [hover] at hbytes'
    cases hbytes'
  obtain ⟨hitem, -⟩ := hstreams loader hform target hshares [9, 9] (by decide) hstreamed howned
  let cell : Item := { bytes := [], data := [1, 2, 3, 4, 5] }
  have hcell : host.holdings.cells.get? 1 0 = some cell := rfl
  have hfinds : loader.Finds host.holdings cell.data := .cellData hcell
  obtain ⟨hstream, hown, htrace, -⟩ := hitem [1, 2, 3, 4, 5] hfinds (by decide)
  obtain ⟨all, before, after, hall, hbefore, hafter, hjoined, -, -⟩ :=
    hparts target [9] [9, 9, 9] 3 (by decide) hwhole hright
  refine ⟨⟨rfl, rfl, hform, hshares, hstreamed, howned, hwhole, hright⟩, hstream, hown, htrace,
    all, before, after, hall, hbefore, hafter, hjoined, ?_, ?_⟩
  · rw [hall] at hbytes
    exact Except.ok.inj hbytes
  · have hlast : right.outcome = .ok after := hafter
    rw [hlast] at hbytes'
    exact Except.ok.inj hbytes'

end Session

end ScriptHost
