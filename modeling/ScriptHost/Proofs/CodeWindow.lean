import ScriptHost.Proofs.Keeping

/-! Loading cell data as code. A window that lies inside the data and fits the buffer fills it to
its end, the rest with zeros, and any other window is refused before a byte is written. -/

namespace ScriptHost

namespace Bytes

/-- What a load of code puts into a buffer: a window of the data, and zeros behind it. -/
def codeImage (data : Bytes) (offset size capacity : Nat) : Bytes :=
  window data offset size ++ zeros (capacity - size)

variable {data : Bytes} {offset size capacity i : Nat}

theorem length_codeImage (hdata : offset + size ≤ data.length) (hfits : size ≤ capacity) :
    (codeImage data offset size capacity).length = capacity := by
  rw [codeImage, List.length_append, length_window, length_zeros]
  omega

theorem getElem?_codeImage (hdata : offset + size ≤ data.length) (hi : i < size) :
    (codeImage data offset size capacity)[i]? = data[offset + i]? := by
  have hwindow : i < (window data offset size).length := by
    rw [length_window]
    omega
  rw [codeImage, List.getElem?_append_left hwindow, window, List.getElem?_take_of_lt hi,
    List.getElem?_drop]

theorem getElem?_codeImage_of_le (hdata : offset + size ≤ data.length) (hi : size ≤ i)
    (hcapacity : i < capacity) : (codeImage data offset size capacity)[i]? = some 0 := by
  have hlength : (window data offset size).length = size := by
    rw [length_window]
    omega
  have hrest : i - size < capacity - size := by omega
  rw [codeImage, List.getElem?_append_right (by omega), hlength, zeros,
    List.getElem?_replicate_of_lt hrest]

theorem overwrite_codeImage {buffer : Bytes} (hdata : offset + size ≤ data.length)
    (hfits : size ≤ buffer.length) :
    overwrite buffer (codeImage data offset size buffer.length) =
      codeImage data offset size buffer.length := by
  have hlength := length_codeImage hdata hfits
  rw [overwrite, List.take_of_length_le (Nat.le_of_eq hlength),
    List.drop_eq_nil_of_le (Nat.le_of_eq hlength.symm), List.append_nil]

end Bytes

namespace Host

variable {host : Host} {capacity : Nat} {offset size index source : UInt64} {cell : Item}

theorem serveCode_of_missing (hcell : host.holdings.cells.get? source index = none) :
    host.serveCode capacity offset size index source =
      { result := HostError.itemMissing.code } := by
  simp only [serveCode, hcell]

theorem serveCode_of_outside (hcell : host.holdings.cells.get? source index = some cell)
    (hout : cell.data.length < offset.toNat + size.toNat ∨ capacity < size.toNat) :
    host.serveCode capacity offset size index source =
      { result := HostError.sliceOutOfBound.code } := by
  have hnot : ¬ (offset.toNat + size.toNat ≤ cell.data.length ∧ size.toNat ≤ capacity) := by omega
  simp only [serveCode, hcell, if_neg hnot]

theorem serveCode_of_inside (hcell : host.holdings.cells.get? source index = some cell)
    (hdata : offset.toNat + size.toNat ≤ cell.data.length) (hfits : size.toNat ≤ capacity) :
    host.serveCode capacity offset size index source =
      { result := 0
        written := Bytes.codeImage cell.data offset.toNat size.toNat capacity } := by
  have hin : offset.toNat + size.toNat ≤ cell.data.length ∧ size.toNat ≤ capacity :=
    ⟨hdata, hfits⟩
  simp only [serveCode, hcell, if_pos hin]
  rfl

end Host

namespace Session

variable {session : Session} {buffer : Bytes} {offset size index : UInt64} {source : Source}
  {reply : Reply}

/-- The call that loads code into a buffer. -/
def codeCall (buffer : Bytes) (offset size index : UInt64) (source : Source) : Call :=
  .loadCode buffer.length offset size index source.word

/-- What a load of code answers with a buffer. -/
def codeAnswer (buffer : Bytes) : Except HostError Unit → Answer
  | .ok () => .ok .nothing { buffer := some buffer }
  | .error error => .refused error { buffer := some buffer }

theorem loadCode_program (buffer : Bytes) (offset size index : UInt64) (source : Source) :
    Action.program (.loadCode buffer offset size index source) =
      .call (codeCall buffer offset size index source) fun reply =>
        (Program.check reply.result).bind fun status =>
          .done (codeAnswer (buffer.overwrite reply.written) status) := by
  change Program.call _ (fun reply => ((Program.check reply.result).bind _).bind _) = _
  congr 1
  funext reply
  rw [Program.bind_assoc]
  congr 1
  funext status
  cases status <;> rfl

theorem step_loadCode (hserves : session.host.Serves) {status : Except HostError Unit}
    (hreply : session.host.serveCode buffer.length offset size index source.word = reply)
    (hstatus : Program.check reply.result = .done status) :
    session.step (.perform (.loadCode buffer offset size index source)) =
      (⟨codeAnswer (buffer.overwrite reply.written) status,
          [codeCall buffer offset size index source]⟩, { session with
        host := session.host.spend [codeCall buffer offset size index source] }) := by
  have hanswer : session.host.answer (codeCall buffer offset size index source) =
      (.ok reply, session.host.spend [codeCall buffer offset size index source]) := by
    rw [Host.answer_of_serves hserves, ← hreply]
    rfl
  apply step_of_run_ok
  rw [loadCode_program, Program.run_call_of_reply hanswer, hstatus]
  rfl

/-- The three ends of a load of code, each with the answer it gives. -/
inductive CodeLoad (host : Host) (buffer : Bytes) (offset size index source : UInt64) :
    Answer → Prop where
  | missing (hcell : host.holdings.cells.get? source index = none) :
      CodeLoad host buffer offset size index source
        (.refused .itemMissing { buffer := some buffer })
  | outside {cell : Item} (hcell : host.holdings.cells.get? source index = some cell)
      (hout : cell.data.length < offset.toNat + size.toNat ∨ buffer.length < size.toNat) :
      CodeLoad host buffer offset size index source
        (.refused .sliceOutOfBound { buffer := some buffer })
  | inside {cell : Item} (hcell : host.holdings.cells.get? source index = some cell)
      (hdata : offset.toNat + size.toNat ≤ cell.data.length) (hfits : size.toNat ≤ buffer.length) :
      CodeLoad host buffer offset size index source
        (.ok .nothing
          { buffer := some (cell.data.codeImage offset.toNat size.toNat buffer.length) })

namespace CodeLoad

variable {host : Host} {word : UInt64} {answer : Answer} {cell : Item}

theorem missing_iff (h : CodeLoad host buffer offset size index word answer) :
    (∃ memory, answer = .refused .itemMissing memory) ↔
      host.holdings.cells.get? word index = none := by
  constructor
  · rintro ⟨memory, hrefused⟩
    cases h with
    | missing hcell => exact hcell
    | outside | inside => cases hrefused
  · intro hnone
    cases h with
    | missing => exact ⟨_, rfl⟩
    | outside hcell | inside hcell => cases hcell.symm.trans hnone

theorem outside_iff (h : CodeLoad host buffer offset size index word answer)
    (hcell : host.holdings.cells.get? word index = some cell) :
    (∃ memory, answer = .refused .sliceOutOfBound memory) ↔
      cell.data.length < offset.toNat + size.toNat ∨ buffer.length < size.toNat := by
  cases h with
  | missing hnone => cases hnone.symm.trans hcell
  | outside hfound hout =>
    obtain rfl := Option.some.inj (hfound.symm.trans hcell)
    exact iff_of_true ⟨_, rfl⟩ hout
  | inside hfound hdata hfits =>
    obtain rfl := Option.some.inj (hfound.symm.trans hcell)
    apply iff_of_false
    · rintro ⟨memory, hrefused⟩
      cases hrefused
    · omega

theorem exists_code (h : CodeLoad host buffer offset size index word answer)
    (hcell : host.holdings.cells.get? word index = some cell)
    (hin : ¬ (cell.data.length < offset.toNat + size.toNat ∨ buffer.length < size.toNat)) :
    ∃ code, answer = .ok .nothing { buffer := some code } ∧ code.length = buffer.length ∧
      (∀ i < size.toNat, code[i]? = cell.data[offset.toNat + i]?) ∧
      (∀ i, size.toNat ≤ i → i < buffer.length → code[i]? = some 0) := by
  cases h with
  | missing hnone => cases hnone.symm.trans hcell
  | outside hfound hout =>
    obtain rfl := Option.some.inj (hfound.symm.trans hcell)
    exact absurd hout hin
  | inside hfound hdata hfits =>
    obtain rfl := Option.some.inj (hfound.symm.trans hcell)
    refine ⟨_, rfl, Bytes.length_codeImage hdata hfits, ?_, ?_⟩
    · intro i hi
      exact Bytes.getElem?_codeImage hdata hi
    · intro i hi hbuffer
      exact Bytes.getElem?_codeImage_of_le hdata hi hbuffer

theorem memory_of_refused {error : HostError} {memory : Memory}
    (h : CodeLoad host buffer offset size index word (.refused error memory)) :
    memory = { buffer := some buffer } := by
  cases h <;> rfl

theorem fits_of_ok {value : Value} {memory : Memory}
    (h : CodeLoad host buffer offset size index word (.ok value memory)) :
    size.toNat ≤ buffer.length := by
  cases h with
  | inside hcell hdata hfits => exact hfits

end CodeLoad

theorem loadCode_cases (session : Session) (hserves : session.host.Serves) (buffer : Bytes)
    (offset size index : UInt64) (source : Source) :
    ∃ answer, CodeLoad session.host buffer offset size index source.word answer ∧
      session.step (.perform (.loadCode buffer offset size index source)) =
        (⟨answer, [codeCall buffer offset size index source]⟩, { session with
          host := session.host.spend [codeCall buffer offset size index source] }) := by
  cases hcell : session.host.holdings.cells.get? source.word index with
  | none =>
    refine ⟨_, .missing hcell, ?_⟩
    rw [step_loadCode hserves (Host.serveCode_of_missing hcell)
      (Program.check_code .itemMissing),
      Bytes.overwrite_nil]
    rfl
  | some cell =>
    by_cases hout : cell.data.length < offset.toNat + size.toNat ∨ buffer.length < size.toNat
    · refine ⟨_, .outside hcell hout, ?_⟩
      rw [step_loadCode hserves (Host.serveCode_of_outside hcell hout)
        (Program.check_code .sliceOutOfBound),
        Bytes.overwrite_nil]
      rfl
    · have hdata : offset.toNat + size.toNat ≤ cell.data.length := by omega
      have hfits : size.toNat ≤ buffer.length := by omega
      refine ⟨_, .inside hcell hdata hfits, ?_⟩
      rw [step_loadCode hserves (Host.serveCode_of_inside hcell hdata hfits)
        Program.check_success, Bytes.overwrite_codeImage hdata hfits]
      rfl

/-- A load of code is refused as missing exactly when there is no such cell, and else as out of
bounds exactly when the window, reckoned without wrapping, reaches beyond the data or is larger than
the buffer. Otherwise it fills the buffer to its end: first the bytes of the window, and then zeros.
A refusal leaves the buffer as it is. -/
theorem code_is_windowed (session : Session) (hf : session.host.forced = none)
    (hc : session.host.cycles + 500 ≤ 2 ^ 64 - 1) (buffer : Bytes) (offset size index : UInt64)
    (source : Source) :
    let cell? := session.host.holdings.cells.get? source.word index
    let call := Call.loadCode buffer.length offset size index source.word
    let record := (session.step (.perform (.loadCode buffer offset size index source))).1
    let left := (session.step (.perform (.loadCode buffer offset size index source))).2.host
    ((∃ memory, record.answer = .refused .itemMissing memory) ↔ cell? = none) ∧
    (∀ cell, cell? = some cell →
      ((∃ memory, record.answer = .refused .sliceOutOfBound memory) ↔
        cell.data.length < offset.toNat + size.toNat ∨ buffer.length < size.toNat) ∧
      (cell.data.length < 2 ^ 64 → 2 ^ 64 ≤ offset.toNat + size.toNat →
        record.answer = .refused .sliceOutOfBound { buffer := some buffer }) ∧
      (¬ (cell.data.length < offset.toNat + size.toNat ∨ buffer.length < size.toNat) →
        ∃ code, record.answer = .ok .nothing { buffer := some code } ∧
          code.length = buffer.length ∧
          (∀ i < size.toNat, code[i]? = cell.data[offset.toNat + i]?) ∧
          (∀ i, size.toNat ≤ i → i < buffer.length → code[i]? = some 0))) ∧
    (∀ error memory, record.answer = .refused error memory → memory = { buffer := some buffer }) ∧
    (∀ value memory, record.answer = .ok value memory → size.toNat ≤ buffer.length) ∧
    record.trace = [call] ∧
    left = { session.host with
      calls := session.host.calls ++ [2091]
      cycles := session.host.cycles + 500 } := by
  intro cell? call record left
  obtain ⟨answer, hload, hstep⟩ :=
    session.loadCode_cases ⟨hf, hc⟩ buffer offset size index source
  have hrecord : record = ⟨answer, [call]⟩ := congrArg Prod.fst hstep
  have hleft : left = session.host.spend [call] := congrArg (fun step => step.2.host) hstep
  rw [hrecord, hleft]
  refine ⟨hload.missing_iff, ?_, ?_, ?_, rfl, rfl⟩
  · intro cell hcell
    refine ⟨hload.outside_iff hcell, ?_, hload.exists_code hcell⟩
    intro hword hwraps
    -- No data is as long as a word can count, so that a window which wraps reaches beyond it.
    obtain ⟨memory, hrefused⟩ := (hload.outside_iff hcell).mpr (by omega)
    subst hrefused
    rw [hload.memory_of_refused]
  · rintro error memory rfl
    exact hload.memory_of_refused
  · rintro value memory rfl
    exact hload.fits_of_ok

/-- Two bytes from the middle of a cell's data go to the start of a buffer of five. -/
theorem code_is_windowed_middle :
    let session : Session :=
      { host := { holdings := { cells := ⟨[(2, { bytes := [], data := [1, 2, 3, 4] })]⟩ } } }
    (session.host.forced = none ∧ session.host.cycles + 500 ≤ 2 ^ 64 - 1) ∧
      ∃ code, (session.step (.perform (.loadCode [9, 9, 9, 9, 9] 1 2 0 .output))).1.answer =
          .ok .nothing { buffer := some code } ∧
        code[0]? = some 2 ∧ code[1]? = some 3 ∧ ∀ i, 2 ≤ i → i < 5 → code[i]? = some 0 := by
  intro session
  have hc : session.host.cycles + 500 ≤ 2 ^ 64 - 1 := by decide
  obtain ⟨-, hcell, -⟩ := session.code_is_windowed rfl hc [9, 9, 9, 9, 9] 1 2 0 .output
  obtain ⟨-, -, hcode⟩ := hcell { bytes := [], data := [1, 2, 3, 4] } rfl
  obtain ⟨code, hanswer, -, hwindow, hzeros⟩ := hcode (by decide)
  exact ⟨⟨rfl, hc⟩, code, hanswer, hwindow 0 (by decide), hwindow 1 (by decide), hzeros⟩

end Session

end ScriptHost
