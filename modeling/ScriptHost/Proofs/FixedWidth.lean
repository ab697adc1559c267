import Mathlib.Algebra.BigOperators.Fin
import ScriptHost.Proofs.Asking
import ScriptHost.Proofs.ForcedResult

/-! Loads of a known width. What has just that width is read as a word or as a digest. What is shorter
or longer is neither filled up nor cut, and the load aborts. -/

namespace ScriptHost

namespace Bytes

/-- Every byte counts 256 times as much as the one before it. -/
theorem littleEndian_eq_sum (bytes : Bytes) :
    littleEndian bytes = ∑ i : Fin bytes.length, bytes[i].toNat * 256 ^ i.val := by
  induction bytes with
  | nil => rfl
  | cons b rest ih =>
    have hshift : 256 * littleEndian rest =
        ∑ i : Fin rest.length, rest[i].toNat * 256 ^ (i.val + 1) := by
      rw [ih, Finset.mul_sum]
      apply Finset.sum_congr rfl
      intro i _
      rw [Nat.pow_succ']
      exact Nat.mul_left_comm _ _ _
    calc littleEndian (b :: rest)
        = b.toNat + 256 * littleEndian rest := rfl
      _ = b.toNat + ∑ i : Fin rest.length, rest[i].toNat * 256 ^ (i.val + 1) := by rw [hshift]
      _ = ∑ i : Fin (b :: rest).length, (b :: rest)[i].toNat * 256 ^ i.val := by
        simp [Fin.sum_univ_succ]

theorem littleEndian_lt (bytes : Bytes) : littleEndian bytes < 256 ^ bytes.length := by
  induction bytes with
  | nil => exact Nat.one_pos
  | cons b rest ih =>
    have hb : b.toNat < 256 := b.toNat_lt
    rw [littleEndian, List.length_cons, Nat.pow_succ]
    omega

/-- Eight bytes fit a word. -/
theorem toNat_ofNat_littleEndian {bytes : Bytes} (h : bytes.length = 8) :
    (UInt64.ofNat (littleEndian bytes)).toNat = littleEndian bytes := by
  have hlt := littleEndian_lt bytes
  rw [h] at hlt
  exact UInt64.toNat_ofNat_of_lt' hlt

theorem littleEndian_word (value : UInt64) :
    littleEndian (ofLittleEndian 8 value.toNat) = value.toNat := by
  have hlt : value.toNat < Nat.pow 256 8 := value.toNat_lt
  rw [littleEndian_ofLittleEndian, Nat.mod_eq_of_lt hlt]

end Bytes

/-- The value that bytes of a full width stand for: a word with its least significant byte first, or
the bytes themselves. -/
inductive Form.Spells : Form → Bytes → Datum → Prop where
  | word {bytes : Bytes} {value : UInt64}
      (h : value.toNat = ∑ i : Fin bytes.length, bytes[i].toNat * 256 ^ i.val) :
      Spells .word bytes (.word value)
  | digest {digest : Digest} : Spells .digest digest.bytes (.digest digest)

/-- A word is read back from the bytes that it is written as. -/
theorem Form.Spells.eq_word {value : UInt64} {datum : Datum}
    (h : Form.word.Spells (Bytes.ofLittleEndian 8 value.toNat) datum) : datum = .word value := by
  cases h with
  | word hsum =>
    rw [← Bytes.littleEndian_eq_sum, Bytes.littleEndian_word] at hsum
    rw [UInt64.toNat_inj.mp hsum]

theorem Program.length_exactCalls_le (target : Target) (width : Nat)
    (selected : Except HostError Bytes) : (exactCalls target width selected).length ≤ 2 := by
  cases selected with
  | error error => exact Nat.le_succ 1
  | ok item =>
    rw [exactCalls]
    split
    · exact Nat.le_succ 1
    · exact Nat.le_refl 2

namespace Session

namespace Loader

variable {loader : Loader} {width : Nat}

theorem steady_target (hw : loader.entry.form.width? = some width) (host : Host) :
    host.Steady loader.target.resource := by
  cases loader with
  | txHash | scriptHash | transaction => exact Resource.noConfusion
  | script => cases hw
  | item query index source => exact query.steady_target host index source

theorem spells_digest (bytes : { b : Bytes // b.length = 32 }) :
    Form.digest.Spells bytes.1 (.digest ⟨bytes.1, bytes.2⟩) :=
  @Form.Spells.digest ⟨bytes.1, bytes.2⟩

theorem spells_word (bytes : { b : Bytes // b.length = 8 }) :
    Form.word.Spells bytes.1 (.word (UInt64.ofNat (Bytes.littleEndian bytes.1))) := by
  apply Form.Spells.word
  rw [Bytes.toNat_ofNat_littleEndian bytes.2, Bytes.littleEndian_eq_sum]

/-- A loader loads with its width, and then reads what it has got. -/
theorem exists_program_eq (hw : loader.entry.form.width? = some width) :
    ∃ value : { b : Bytes // b.length = width } → Datum,
      (∀ bytes, loader.entry.form.Spells bytes.1 (value bytes)) ∧
      loader.action.program = (Program.loadExact loader.target width).bind fun answer =>
        .done (.ofExcept (.datum ∘ value) answer) := by
  cases loader with
  | script | transaction => cases hw
  | txHash | scriptHash =>
    cases hw
    refine ⟨_, spells_digest, ?_⟩
    exact Program.bind_map_ofExcept _ _ _
  | item query index source =>
    rw [entry, ← query.form_eq] at hw ⊢
    cases hform : query.form with
    | bytes =>
      rw [hform] at hw
      cases hw
    | word =>
      rw [hform] at hw
      cases hw
      refine ⟨_, spells_word, ?_⟩
      simp only [action, Action.program, Query.load, hform]
      exact (Program.bind_map_ofExcept _ Datum.word _).trans (Program.bind_map_ofExcept _ _ _)
    | digest =>
      rw [hform] at hw
      cases hw
      refine ⟨_, spells_digest, ?_⟩
      simp only [action, Action.program, Query.load, hform]
      exact (Program.bind_map_ofExcept _ Datum.digest _).trans (Program.bind_map_ofExcept _ _ _)

end Loader

/-- Loads of a known width are exact: bytes of just this width come back as the value that they spell,
after one call. Whatever is shorter or longer aborts the load. What is not there is refused as
missing, and only a header that lacks the field has the wrong format. -/
theorem widths_are_exact (session : Session) (hf : session.host.forced = none)
    (hc : session.host.cycles ≤ 2 ^ 64 - 1 - 1000) (loader : Loader) {width : Nat}
    (hw : loader.entry.form.width? = some width) :
    let record := (session.step (.perform loader.action)).1
    let holdings := session.host.holdings
    (∀ item, loader.Finds holdings item →
      (item.length = width →
        (∃ datum, loader.entry.form.Spells item datum ∧ record.answer = .value (.datum datum)) ∧
          record.trace = [loader.call width 0]) ∧
      (item.length ≠ width →
        (∃ reason, record.answer = .fatal reason ∧
          reason.message = "Mocked exit called with code -2") ∧
          record.trace = [loader.call width 0, Program.exitCall (-2)])) ∧
    (∀ value : UInt64, loader.entry.form = .word →
      loader.Finds holdings (Bytes.ofLittleEndian 8 value.toNat) →
      record.answer = .value (.datum (.word value))) ∧
    ((∀ item, ¬ loader.Finds holdings item) →
      (loader.LacksField holdings → record.answer = .refused .wrongFormat {}) ∧
      (¬ loader.LacksField holdings → record.answer = .refused .itemMissing {}) ∧
      record.trace = [loader.call width 0]) := by
  intro record holdings
  obtain ⟨value, hspells, hprogram⟩ := Loader.exists_program_eq hw
  have hfits := loader.fits_target
  have hsteady := Loader.steady_target hw session.host
  have hyields := (Program.loadExact_yields hf hsteady).map fun answer =>
    Answer.ofExcept (.datum ∘ value) answer
  rw [← hprogram] at hyields
  have hroom : session.host.Affords 2 := by
    simp only [Host.Affords, Host.cyclesPerCall]
    omega
  have hcalls := Program.length_exactCalls_le loader.target width (holdings.read loader.target)
  have hrun := hyields.run_host (hroom.mono hcalls)
  have hcall := hfits.ofTarget_eq width 0
  have hexact (item : Bytes) (hi : loader.Finds holdings item) (hlength : item.length = width) :
      (∃ datum, loader.entry.form.Spells item datum ∧ record.answer = .value (.datum datum)) ∧
        record.trace = [loader.call width 0] := by
    rw [hfits.read_of_finds hi, Program.exactOutcome, Program.exactCalls, dif_pos hlength,
      if_pos hlength, hcall] at hrun
    have hrecord : record = _ := congrArg Prod.fst (step_of_run_ok hrun)
    rw [hrecord]
    exact ⟨⟨_, hspells ⟨item, hlength⟩, rfl⟩, rfl⟩
  refine ⟨?_, ?_, ?_⟩
  · intro item hi
    refine ⟨hexact item hi, ?_⟩
    intro hlength
    rw [hfits.read_of_finds hi, Program.exactOutcome, Program.exactCalls, dif_neg hlength,
      if_neg hlength, hcall] at hrun
    have hrecord : record = _ := congrArg Prod.fst (step_of_run_error hrun)
    rw [hrecord]
    exact ⟨⟨_, rfl, Program.message_abort⟩, rfl⟩
  · intro word hform hi
    have height : some 8 = some width := by
      rw [← hw, hform]
      rfl
    have hlength : (Bytes.ofLittleEndian 8 word.toNat).length = width := by
      rw [Bytes.length_ofLittleEndian]
      exact Option.some.inj height
    obtain ⟨datum, hdatum, hanswer⟩ := (hexact _ hi hlength).1
    rw [hform] at hdatum
    rw [hanswer, hdatum.eq_word]
  · intro habsent
    have hrefused {error : HostError} (hread : holdings.read loader.target = .error error) :
        record.answer = .refused error {} ∧ record.trace = [loader.call width 0] := by
      rw [hread, Program.exactCalls, hcall] at hrun
      have hrecord : record = _ := congrArg Prod.fst (step_of_run_ok hrun)
      rw [hrecord]
      exact ⟨rfl, rfl⟩
    by_cases hl : loader.LacksField holdings
    · obtain ⟨hanswer, htrace⟩ := hrefused (hfits.read_of_lacksField hl)
      exact ⟨fun _ => hanswer, fun hn => absurd hl hn, htrace⟩
    · obtain ⟨hanswer, htrace⟩ := hrefused (hfits.read_of_absent habsent hl)
      exact ⟨fun h => absurd h hl, fun _ => hanswer, htrace⟩

/-- A cell whose capacity has eight bytes, whose occupied capacity has four, and which has no type
script. -/
theorem widths_are_exact_cell :
    let session : Session := {
      host :=
        { holdings :=
          { cells := ⟨[(2,
            { bytes := [1]
              fields := [(0, [44, 1, 0, 0, 0, 0, 0, 0]), (6, [44, 1, 0, 0])] })]⟩ } } }
    let capacity : Loader := .item .cellCapacity 0 .output
    let occupied : Loader := .item .cellOccupiedCapacity 0 .output
    let typeHash : Loader := .item .cellTypeHash 0 .output
    (session.host.forced = none ∧ session.host.cycles ≤ 2 ^ 64 - 1 - 1000 ∧
      capacity.entry.form.width? = some 8 ∧ occupied.entry.form.width? = some 8 ∧
      typeHash.entry.form.width? = some 32) ∧
      (session.step (.perform (.ask .cellCapacity 0 .output))).1.answer =
        .value (.datum (.word 300)) ∧
      (session.step (.perform (.ask .cellOccupiedCapacity 0 .output))).1.trace =
        [.load 2081 8 0 0 2 6, Program.exitCall (-2)] ∧
      (session.step (.perform (.ask .cellTypeHash 0 .output))).1.answer =
        .refused .itemMissing {} := by
  intro session capacity occupied typeHash
  have hf : session.host.forced = none := rfl
  have hc : session.host.cycles ≤ 2 ^ 64 - 1 - 1000 := by decide
  have hcapacity := (session.widths_are_exact hf hc capacity rfl).2.1 300 rfl (.cellField rfl rfl)
  have hoccupied := (session.widths_are_exact hf hc occupied rfl).1 [44, 1, 0, 0]
    (.cellField rfl rfl)
  have hshort : ([44, 1, 0, 0] : Bytes).length ≠ 8 := by decide
  have habsent (item : Bytes) : ¬ typeHash.Finds session.host.holdings item := by
    intro hi
    cases hi with
    | cellField hitem hfield =>
      cases hitem
      cases hfield
  have hcell : ¬ typeHash.LacksField session.host.holdings := by
    intro hlacks
    cases hlacks.1
  have hmissing := ((session.widths_are_exact hf hc typeHash rfl).2.2 habsent).2.1 hcell
  exact ⟨⟨hf, hc, rfl, rfl, rfl⟩, hcapacity, (hoccupied.2 hshort).2, hmissing⟩

end Session

end ScriptHost
