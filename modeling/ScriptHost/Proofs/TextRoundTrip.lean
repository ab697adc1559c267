import Mathlib.Tactic.IntervalCases
import ScriptHost.Host.Serve

/-! Reading UTF-8 back. The reader that replaces damaged characters gives every text back from its
encoding, whatever bytes follow it, so that nothing is lost where nothing was damaged. -/

namespace ScriptHost.Utf8

theorem decodeFrom_cons (state : State) (b : UInt8) (rest : Bytes) :
    decodeFrom state (b :: rest) = (step state b).2 ++ decodeFrom (step state b).1 rest := by
  cases state <;> rfl

/-- A byte that carries six bits of a character. -/
def tail (bits : Nat) : UInt8 :=
  UInt8.ofNat (bits + 0x80)

theorem toNat_tail {bits : Nat} (h : bits < 64) : (tail bits).toNat = bits + 0x80 := by
  rw [tail, UInt8.toNat_ofNat']
  omega

section Tails

variable {bits owed value lead last : Nat} {low high : UInt8}

theorem tail_within (h : bits < 64) (hlow : low.toNat ≤ bits + 0x80)
    (hhigh : bits + 0x80 ≤ high.toNat) : low ≤ tail bits ∧ tail bits ≤ high := by
  rw [UInt8.le_iff_toNat_le, UInt8.le_iff_toNat_le, toNat_tail h]
  exact ⟨hlow, hhigh⟩

theorem step_tail_last (h : bits < 64) (hlow : low.toNat ≤ bits + 0x80)
    (hhigh : bits + 0x80 ≤ high.toNat) :
    step (.pending 0 low high value) (tail bits) = (.start, [Char.ofNat (64 * value + bits)]) := by
  rw [step, if_pos (tail_within h hlow hhigh), toNat_tail h, Nat.add_sub_cancel]

theorem step_tail (h : bits < 64) (hlow : low.toNat ≤ bits + 0x80)
    (hhigh : bits + 0x80 ≤ high.toNat) :
    step (.pending (owed + 1) low high value) (tail bits) =
      (.pending owed 0x80 0xBF (64 * value + bits), []) := by
  rw [step, if_pos (tail_within h hlow hhigh), toNat_tail h, Nat.add_sub_cancel]

/-- Behind a lead without bits the second byte has the bits that a shorter form lacks. -/
theorem low_le_tail (h : lead = 0 → low.toNat ≤ bits + 0x80) :
    (if lead = 0 then low else 0x80 : UInt8).toNat ≤ bits + 0x80 := by
  split
  · next hlead => exact h hlead
  · exact Nat.le_add_left 0x80 bits

/-- Behind one lead alone the second byte may not carry all bits. -/
theorem tail_le_high (hbits : bits < 64) (h : lead = last → bits + 0x80 ≤ high.toNat) :
    bits + 0x80 ≤ (if lead = last then high else 0xBF : UInt8).toNat := by
  split
  · next hlead => exact h hlead
  · exact Nat.add_le_add_right (Nat.le_of_lt_succ hbits) 0x80

/-- Bytes behind the second may carry any bits. -/
theorem step_tail_wide_last (h : bits < 64) :
    step (.pending 0 0x80 0xBF value) (tail bits) = (.start, [Char.ofNat (64 * value + bits)]) := by
  apply step_tail_last h
  · exact Nat.le_add_left 0x80 bits
  · exact Nat.add_le_add_right (Nat.le_of_lt_succ h) 0x80

theorem step_tail_wide (h : bits < 64) :
    step (.pending (owed + 1) 0x80 0xBF value) (tail bits) =
      (.pending owed 0x80 0xBF (64 * value + bits), []) := by
  apply step_tail h
  · exact Nat.le_add_left 0x80 bits
  · exact Nat.add_le_add_right (Nat.le_of_lt_succ h) 0x80

end Tails

theorem first_one {bits : Nat} (h : bits < 0x80) :
    first (UInt8.ofNat bits) = (.start, [Char.ofNat bits]) := by
  have hbits : (UInt8.ofNat bits).toNat = bits := by
    rw [UInt8.toNat_ofNat']
    omega
  have hle : UInt8.ofNat bits ≤ 0x7F := by
    rw [UInt8.le_iff_toNat_le, hbits]
    exact Nat.le_of_lt_succ h
  rw [first, if_pos hle, hbits]

/-- The lead byte of two. The bits below two would be an overlong form. -/
theorem first_two {bits : Nat} (h : bits < 32) (hlong : 2 ≤ bits) :
    first (UInt8.ofNat (bits + 0xC0)) = (.pending 0 0x80 0xBF bits, []) := by
  interval_cases bits <;> rfl

/-- The lead byte of three. -/
theorem first_three {bits : Nat} (h : bits < 16) :
    first (UInt8.ofNat (bits + 0xE0)) =
      (.pending 1 (if bits = 0 then 0xA0 else 0x80)
        (if bits = 13 then 0x9F else 0xBF) bits, []) := by
  interval_cases bits <;> rfl

theorem first_four {bits : Nat} (h : bits < 5) :
    first (UInt8.ofNat (bits + 0xF0)) =
      (.pending 2 (if bits = 0 then 0x90 else 0x80)
        (if bits = 4 then 0x8F else 0xBF) bits, []) := by
  interval_cases bits <;> rfl

section Characters

variable {value : Nat} (rest : Bytes)

theorem decode_one (h : value < 0x80) :
    decodeFrom .start (UInt8.ofNat value :: rest) = Char.ofNat value :: decodeFrom .start rest := by
  rw [decodeFrom_cons, step, first_one h]
  rfl

theorem decode_two (hlong : 0x80 ≤ value) (h : value ≤ 0x7FF) :
    decodeFrom .start (UInt8.ofNat (value / 64 % 32 + 0xC0) :: tail (value % 64) :: rest) =
      Char.ofNat value :: decodeFrom .start rest := by
  have hlead : 2 ≤ value / 64 % 32 := by omega
  have hvalue : 64 * (value / 64 % 32) + value % 64 = value := by omega
  have htail : value % 64 < 64 := by omega
  rw [decodeFrom_cons, step, first_two (by omega) hlead, decodeFrom_cons,
    step_tail_wide_last htail, hvalue]
  rfl

/-- Three bytes carry a character that is no surrogate. -/
theorem decode_three (hlong : 0x800 ≤ value) (h : value ≤ 0xFFFF)
    (hvalid : value < 0xD800 ∨ 0xDFFF < value) :
    decodeFrom .start
        (UInt8.ofNat (value / 4096 % 16 + 0xE0) :: tail (value / 64 % 64) :: tail (value % 64) ::
          rest) =
      Char.ofNat value :: decodeFrom .start rest := by
  have hvalue : 64 * (64 * (value / 4096 % 16) + value / 64 % 64) + value % 64 = value := by omega
  have hsecond : value / 64 % 64 < 64 := by omega
  have hthird : value % 64 < 64 := by omega
  have hlow : value / 4096 % 16 = 0 → 0xA0 ≤ value / 64 % 64 + 0x80 := by omega
  have hhigh : value / 4096 % 16 = 13 → value / 64 % 64 + 0x80 ≤ 0x9F := by omega
  rw [decodeFrom_cons, step, first_three (by omega), decodeFrom_cons,
    step_tail hsecond (low_le_tail hlow) (tail_le_high hsecond hhigh), decodeFrom_cons,
    step_tail_wide_last hthird, hvalue]
  rfl

/-- Four bytes carry a character up to the last code point. -/
theorem decode_four (hlong : 0x10000 ≤ value) (h : value < 0x110000) :
    decodeFrom .start
        (UInt8.ofNat (value / 262144 % 8 + 0xF0) :: tail (value / 4096 % 64) ::
          tail (value / 64 % 64) :: tail (value % 64) :: rest) =
      Char.ofNat value :: decodeFrom .start rest := by
  have hvalue : 64 * (64 * (64 * (value / 262144 % 8) + value / 4096 % 64) + value / 64 % 64) +
      value % 64 = value := by omega
  have hsecond : value / 4096 % 64 < 64 := by omega
  have hthird : value / 64 % 64 < 64 := by omega
  have hfourth : value % 64 < 64 := by omega
  have hlow : value / 262144 % 8 = 0 → 0x90 ≤ value / 4096 % 64 + 0x80 := by omega
  have hhigh : value / 262144 % 8 = 4 → value / 4096 % 64 + 0x80 ≤ 0x8F := by omega
  rw [decodeFrom_cons, step, first_four (by omega), decodeFrom_cons,
    step_tail hsecond (low_le_tail hlow) (tail_le_high hsecond hhigh), decodeFrom_cons,
    step_tail_wide hthird, decodeFrom_cons, step_tail_wide_last hfourth, hvalue]
  rfl

/-- A whole character is read as itself, and the reader stands between characters again. -/
theorem decodeFrom_encodeChar (c : Char) :
    decodeFrom .start (String.utf8EncodeChar c ++ rest) = c :: decodeFrom .start rest := by
  have hvalid : c.val.toNat < 0xD800 ∨ 0xDFFF < c.val.toNat ∧ c.val.toNat < 0x110000 := c.valid
  have hchar : Char.ofNat c.val.toNat = c := Char.ofNat_toNat c
  rw [String.utf8EncodeChar]
  split
  · next h =>
    have hone := decode_one rest (Nat.lt_succ_of_le h)
    rwa [hchar] at hone
  · split
    · next hlong h =>
      have htwo := decode_two rest (Nat.lt_of_not_le hlong) h
      rwa [hchar] at htwo
    · split
      · next hlong h =>
        have hthree := decode_three rest (Nat.lt_of_not_le hlong) h (by omega)
        rwa [hchar] at hthree
      · next hlong =>
        have hfour := decode_four rest (Nat.lt_of_not_le hlong) (by omega)
        rwa [hchar] at hfour

end Characters

theorem decodeFrom_encode (text : List Char) (rest : Bytes) :
    decodeFrom .start (encode text ++ rest) = text ++ decodeFrom .start rest := by
  induction text with
  | nil => rfl
  | cons c text ih =>
    have hcons : encode (c :: text) ++ rest = String.utf8EncodeChar c ++ (encode text ++ rest) := by
      rw [encode, List.flatMap_cons, List.append_assoc]
      rfl
    rw [hcons, decodeFrom_encodeChar, ih]
    rfl

/-- Undamaged text is read as itself. -/
theorem decodeLossy_encode (text : List Char) : decodeLossy (encode text) = text := by
  have hread := decodeFrom_encode text []
  rw [List.append_nil] at hread
  rw [decodeLossy, hread]
  exact List.append_nil text

end ScriptHost.Utf8
