import Mathlib.Data.String.Basic
import ScriptHost.Text.Hex

/-! Hexadecimal text as a grammar: which texts spell bytes, and which bytes. Reading takes just the
texts of an even number of digits, and gives the bytes that they spell. -/

namespace ScriptHost.Hex

/-- The hexadecimal digits of both cases. -/
def digits : List Char :=
  "0123456789abcdefABCDEF".toList

/-- What a digit stands for: its place among the digits of lower case. -/
def value (c : Char) : Nat :=
  "0123456789abcdef".toList.idxOf c.toLower

/-- What holds of the twenty-two digits one by one holds of every digit. -/
theorem of_all_digits {P : Char → Prop} [DecidablePred P] (hall : digits.all (P ·) = true)
    {c : Char} (h : c ∈ digits) : P c :=
  of_decide_eq_true (List.all_eq_true.mp hall c h)

theorem lt_of_mem_digits {c : Char} (h : c ∈ digits) : c.toNat < 128 :=
  of_all_digits (P := fun c => c.toNat < 128) (by decide +kernel) h

theorem value_lt {c : Char} (h : c ∈ digits) : value c < 16 :=
  of_all_digits (P := fun c => value c < 16) (by decide +kernel) h

theorem digit?_eq (c : Char) : digit? c = if c ∈ digits then some (value c) else none := by
  by_cases hc : c.toNat < 128
  · have hall : ∀ n < 128, digit? (Char.ofNat n) =
        if Char.ofNat n ∈ digits then some (value (Char.ofNat n)) else none := by
      decide +kernel
    have hchar := hall c.toNat hc
    rwa [Char.ofNat_toNat] at hchar
  · have hnot : c ∉ digits := fun h => hc (lt_of_mem_digits h)
    have hlarge (last : Char) (hlast : last.toNat < 128) : ¬ c ≤ last := by
      intro hle
      have hnat : c.toNat ≤ last.toNat := UInt32.le_iff_toNat_le.mp hle
      omega
    have hnine := hlarge '9' (by decide)
    have hlower := hlarge 'f' (by decide)
    have hupper := hlarge 'F' (by decide)
    rw [digit?, if_neg fun h => hnine h.2, if_neg fun h => hlower h.2, if_neg fun h => hupper h.2,
      if_neg hnot]

/-- The text spells the bytes with two digits for each, the high half first. -/
structure Spells (text : List Char) (bytes : Bytes) : Prop where
  length_eq : text.length = 2 * bytes.length
  mem_digits : ∀ c ∈ text, c ∈ digits
  getElem_eq : ∀ i (hi : i < bytes.length),
    bytes[i].toNat = 16 * value text[2 * i] + value text[2 * i + 1]

namespace Spells

variable {text : List Char} {bytes other : Bytes} {high low : Char}

theorem nil : Spells [] [] where
  length_eq := rfl
  mem_digits := List.forall_mem_nil _
  getElem_eq i hi := absurd hi (Nat.not_lt_zero i)

theorem cons (h : Spells text bytes) (hhigh : high ∈ digits) (hlow : low ∈ digits) :
    Spells (high :: low :: text) (UInt8.ofNat (16 * value high + value low) :: bytes) where
  length_eq := by
    have hlength := h.length_eq
    simp only [List.length_cons]
    omega
  mem_digits := List.forall_mem_cons.mpr ⟨hhigh, List.forall_mem_cons.mpr ⟨hlow, h.mem_digits⟩⟩
  getElem_eq i hi := by
    cases i with
    | zero =>
      have hbyte : 16 * value high + value low < 256 := by
        have hh := value_lt hhigh
        have hl := value_lt hlow
        omega
      exact UInt8.toNat_ofNat_of_lt' hbyte
    | succ i => exact h.getElem_eq i (Nat.lt_of_succ_lt_succ hi)

/-- A text spells at most one list of bytes. -/
theorem unique (h : Spells text bytes) (ho : Spells text other) : bytes = other := by
  have hlength : bytes.length = other.length := by
    have hb := h.length_eq
    have ho := ho.length_eq
    omega
  apply List.ext_getElem hlength
  intro i hi hio
  apply UInt8.toNat_inj.mp
  rw [h.getElem_eq i hi, ho.getElem_eq i hio]

end Spells

variable {text : List Char} {bytes : Bytes} {high low : Char}

theorem decode?_cons (hhigh : high ∈ digits) (hlow : low ∈ digits) (rest : List Char) :
    decode? (high :: low :: rest) =
      (decode? rest).map (UInt8.ofNat (16 * value high + value low) :: ·) := by
  rw [decode?, digit?_eq, digit?_eq, if_pos hhigh, if_pos hlow]
  cases decode? rest <;> rfl

theorem decode?_cons_of_notMem (h : high ∉ digits ∨ low ∉ digits) (rest : List Char) :
    decode? (high :: low :: rest) = none := by
  rw [decode?, digit?_eq, digit?_eq]
  by_cases hhigh : high ∈ digits
  · rw [if_pos hhigh, if_neg (h.resolve_left (not_not_intro hhigh))]
    rfl
  · rw [if_neg hhigh]
    rfl

/-- What is read is what the text spells. -/
theorem decode?_spells (h : decode? text = some bytes) : Spells text bytes := by
  -- The induction takes two characters at a time, as the reader does.
  induction text using decode?.induct generalizing bytes with
  | case1 =>
    cases h
    exact .nil
  | case2 c => cases h
  | case3 high low rest ih =>
    by_cases hboth : high ∈ digits ∧ low ∈ digits
    · obtain ⟨hhigh, hlow⟩ := hboth
      rw [decode?_cons hhigh hlow, Option.map_eq_some_iff] at h
      obtain ⟨tail, htail, rfl⟩ := h
      exact (ih htail).cons hhigh hlow
    · rw [decode?_cons_of_notMem (not_and_or.mp hboth)] at h
      cases h

/-- Every text of an even number of digits is read. -/
theorem exists_decode? (heven : text.length % 2 = 0) (h : ∀ c ∈ text, c ∈ digits) :
    ∃ bytes, decode? text = some bytes := by
  induction text using decode?.induct with
  | case1 => exact ⟨[], rfl⟩
  | case2 c => simp at heven
  | case3 high low rest ih =>
    obtain ⟨hhigh, hlow, hrest⟩ : high ∈ digits ∧ low ∈ digits ∧ ∀ c ∈ rest, c ∈ digits := by
      simpa only [List.forall_mem_cons] using h
    have hlength : rest.length % 2 = 0 := by
      simp only [List.length_cons] at heven
      omega
    obtain ⟨bytes, hbytes⟩ := ih hlength hrest
    rw [decode?_cons hhigh hlow, hbytes]
    exact ⟨_, rfl⟩

theorem decode?_eq_some_iff : decode? text = some bytes ↔ Spells text bytes := by
  constructor
  · exact decode?_spells
  · intro h
    have heven : text.length % 2 = 0 := by
      rw [h.length_eq]
      omega
    obtain ⟨read, hread⟩ := exists_decode? heven h.mem_digits
    rw [hread, h.unique (decode?_spells hread)]

theorem decode?_eq_none_iff :
    decode? text = none ↔ text.length % 2 = 1 ∨ ∃ c ∈ text, c ∉ digits := by
  constructor
  · intro hnone
    by_contra hn
    simp only [not_or, not_exists, not_and, not_not] at hn
    obtain ⟨bytes, hbytes⟩ := exists_decode? (by omega) hn.2
    rw [hnone] at hbytes
    cases hbytes
  · intro hbad
    cases hread : decode? text with
    | none => rfl
    | some bytes =>
      have hspells := decode?_spells hread
      have hlength := hspells.length_eq
      rcases hbad with hodd | ⟨c, hc, hnot⟩
      · omega
      · exact absurd (hspells.mem_digits c hc) hnot

/-- Digits take one byte each in UTF-8. -/
theorem utf8ByteSize_eq_length (h : ∀ c ∈ text, c ∈ digits) :
    (String.ofList text).utf8ByteSize = text.length := by
  have hsize {c : Char} (hc : c ∈ digits) : c.utf8Size = 1 :=
    of_all_digits (P := fun c => c.utf8Size = 1) (by decide +kernel) hc
  rw [String.utf8ByteSize_ofList]
  induction text with
  | nil => rfl
  | cons c rest ih =>
    obtain ⟨hc, hrest⟩ := List.forall_mem_cons.mp h
    rw [String.utf8Len, ih hrest, hsize hc, List.length_cons]

end ScriptHost.Hex
