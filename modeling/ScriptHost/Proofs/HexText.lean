import ScriptHost.Proofs.HexDigits

/-! Hexadecimal text as it is written. Bytes have one text in lower case, and a text spells them
just when it is that text with some of its letters in upper case. -/

namespace ScriptHost.Hex

/-- The digits that are written. -/
def lowerDigits : List Char :=
  "0123456789abcdef".toList

theorem digitChar_mem {n : Nat} (h : n < 16) : Nat.digitChar n ∈ lowerDigits := by
  have hall : ∀ n < 16, Nat.digitChar n ∈ lowerDigits := by decide +kernel
  exact hall n h

theorem value_digitChar {n : Nat} (h : n < 16) : value (Nat.digitChar n) = n := by
  have hall : ∀ n < 16, value (Nat.digitChar n) = n := by decide +kernel
  exact hall n h

/-- A digit in lower case is the one that is written for what it stands for. -/
theorem digitChar_value {c : Char} (h : c ∈ digits) : Nat.digitChar (value c) = c.toLower :=
  of_all_digits (P := fun c => Nat.digitChar (value c) = c.toLower) (by decide +kernel) h

theorem mem_digits_of_lower {c : Char} (h : c ∈ lowerDigits) : c ∈ digits := by
  have hsplit : digits = lowerDigits ++ "ABCDEF".toList := by decide +kernel
  rw [hsplit]
  exact List.mem_append_left _ h

/-- The case of a character does not matter to what it stands for, nor to whether it is a digit. -/
theorem toLower_mem_iff (c : Char) : c.toLower ∈ lowerDigits ↔ c ∈ digits := by
  constructor
  · intro h
    by_cases hc : c.toNat < 128
    · have hall : ∀ n < 128, (Char.ofNat n).toLower ∈ lowerDigits → Char.ofNat n ∈ digits := by
        decide +kernel
      have hchar := hall c.toNat hc
      rw [Char.ofNat_toNat] at hchar
      exact hchar h
    · have hupper : ¬ (c.val ≥ 'A'.val ∧ c.val ≤ 'Z'.val) := by
        intro hrange
        have hle : c.toNat ≤ 90 := UInt32.le_iff_toNat_le.mp hrange.2
        omega
      have hsame : c.toLower = c := dif_neg hupper
      rw [hsame] at h
      exact mem_digits_of_lower h
  · intro h
    exact of_all_digits (P := fun c => c.toLower ∈ lowerDigits) (by decide +kernel) h

theorem value_toLower {c : Char} (h : c ∈ digits) : value c.toLower = value c :=
  of_all_digits (P := fun c => value c.toLower = value c) (by decide +kernel) h

variable {text : List Char} {bytes : Bytes}

/-- Each half of a byte has a digit. -/
theorem halves_lt (b : UInt8) : b.toNat / 16 < 16 ∧ b.toNat % 16 < 16 := by
  have hbyte : b.toNat < 256 := b.toNat_lt
  omega

theorem encode_cons (b : UInt8) (bytes : Bytes) :
    encode (b :: bytes) =
      Nat.digitChar (b.toNat / 16) :: Nat.digitChar (b.toNat % 16) :: encode bytes := by
  rw [encode, List.flatMap_cons]
  rfl

theorem mem_lowerDigits_of_encode (bytes : Bytes) : ∀ c ∈ encode bytes, c ∈ lowerDigits := by
  induction bytes with
  | nil => exact List.forall_mem_nil _
  | cons b bytes ih =>
    obtain ⟨hhigh, hlow⟩ := halves_lt b
    rw [encode_cons]
    exact List.forall_mem_cons.mpr
      ⟨digitChar_mem hhigh, List.forall_mem_cons.mpr ⟨digitChar_mem hlow, ih⟩⟩

/-- What is written spells the bytes. -/
theorem encode_spells (bytes : Bytes) : Spells (encode bytes) bytes := by
  induction bytes with
  | nil => exact .nil
  | cons b bytes ih =>
    obtain ⟨hhigh, hlow⟩ := halves_lt b
    have hhalves : UInt8.ofNat (16 * value (Nat.digitChar (b.toNat / 16)) +
        value (Nat.digitChar (b.toNat % 16))) = b := by
      rw [value_digitChar hhigh, value_digitChar hlow, Nat.div_add_mod, UInt8.ofNat_toNat]
    have hcons := ih.cons (mem_digits_of_lower (digitChar_mem hhigh))
      (mem_digits_of_lower (digitChar_mem hlow))
    rw [hhalves] at hcons
    rw [encode_cons]
    exact hcons

/-- Bytes are known from their text. -/
theorem encode_injective {other : Bytes} (h : encode bytes = encode other) : bytes = other := by
  have hspells := encode_spells bytes
  rw [h] at hspells
  exact hspells.unique (encode_spells other)

/-- What spells the same bytes differs in the case of its letters alone. -/
theorem Spells.map_toLower (h : Spells text bytes) : text.map Char.toLower = encode bytes := by
  have hread := decode?_eq_some_iff.mpr h
  clear h
  induction text using decode?.induct generalizing bytes with
  | case1 =>
    cases hread
    rfl
  | case2 c => cases hread
  | case3 high low rest ih =>
    by_cases hboth : high ∈ digits ∧ low ∈ digits
    · obtain ⟨hhigh, hlow⟩ := hboth
      rw [decode?_cons hhigh hlow, Option.map_eq_some_iff] at hread
      obtain ⟨tail, htail, rfl⟩ := hread
      have hhalf : value low < 16 := value_lt hlow
      have hfits : 16 * value high + value low < 256 := by
        have hh := value_lt hhigh
        omega
      have hbyte : (UInt8.ofNat (16 * value high + value low)).toNat =
          16 * value high + value low := UInt8.toNat_ofNat_of_lt' hfits
      have hdiv : (16 * value high + value low) / 16 = value high := by omega
      have hmod : (16 * value high + value low) % 16 = value low := by omega
      rw [encode_cons, hbyte, hdiv, hmod, digitChar_value hhigh, digitChar_value hlow, ← ih htail]
      rfl
    · rw [decode?_cons_of_notMem (not_and_or.mp hboth)] at hread
      cases hread

/-- A text spells bytes just when it is what is written for them, but for the case of its
letters. -/
theorem spells_iff : Spells text bytes ↔ text.map Char.toLower = encode bytes := by
  constructor
  · exact Spells.map_toLower
  · intro h
    have hwritten := encode_spells bytes
    have hmem : ∀ c ∈ text, c ∈ digits := by
      intro c hc
      have hlower : c.toLower ∈ encode bytes := by
        rw [← h]
        exact List.mem_map_of_mem hc
      exact (toLower_mem_iff c).mp (mem_lowerDigits_of_encode bytes _ hlower)
    have hlength : text.length = 2 * bytes.length := by
      rw [← hwritten.length_eq, ← h, List.length_map]
    refine ⟨hlength, hmem, ?_⟩
    intro i hi
    have hvalue (j : Nat) (hj : j < text.length) (hj' : j < (encode bytes).length) :
        value (encode bytes)[j] = value text[j] := by
      have hget : (encode bytes)[j] = text[j].toLower := by
        simp only [← h, List.getElem_map]
      rw [hget, value_toLower (hmem _ (List.getElem_mem hj))]
    rw [hwritten.getElem_eq i hi, hvalue (2 * i) (by omega), hvalue (2 * i + 1) (by omega)]

end ScriptHost.Hex
