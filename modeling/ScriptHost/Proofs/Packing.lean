import Mathlib.Algebra.Group.Nat.Defs
import Mathlib.Logic.Function.Basic
import ScriptHost.Bounds

/-! Windows in words. The halves of a window's word do not overlap, so that both can be read back,
and every word is made of two such halves. -/

namespace ScriptHost.Bounds

/-- The upper half stands above the lower one, and no bit of it is shifted out of the word. -/
theorem toNat_upper (bounds : Bounds) :
    (bounds.offset.toUInt64 <<< 32).toNat = bounds.offset.toNat <<< 32 := by
  have hoffset : bounds.offset.toNat < 2 ^ 32 := bounds.offset.toNat_lt
  have hwidth : (32 : UInt64).toNat % 64 = 32 := rfl
  rw [UInt64.toNat_shiftLeft, hwidth, UInt32.toNat_toUInt64]
  apply Nat.mod_eq_of_lt
  rw [Nat.shiftLeft_eq]
  omega

theorem toNat_toWord (bounds : Bounds) :
    bounds.toWord.toNat = bounds.offset.toNat * 2 ^ 32 + bounds.length.toNat := by
  have hlength : bounds.length.toNat < 2 ^ 32 := bounds.length.toNat_lt
  calc bounds.toWord.toNat
      = bounds.offset.toNat <<< 32 ||| bounds.length.toNat := by
        rw [toWord, UInt64.toNat_or, toNat_upper, UInt32.toNat_toUInt64]
    _ = bounds.offset.toNat <<< 32 + bounds.length.toNat :=
        (Nat.shiftLeft_add_eq_or_of_lt hlength _).symm
    _ = bounds.offset.toNat * 2 ^ 32 + bounds.length.toNat := by rw [Nat.shiftLeft_eq]

theorem halves_disjoint (bounds : Bounds) :
    bounds.offset.toUInt64 <<< 32 &&& bounds.length.toUInt64 = 0 := by
  apply UInt64.toNat_inj.mp
  rw [UInt64.toNat_and, toNat_upper, UInt32.toNat_toUInt64]
  apply Nat.eq_of_testBit_eq
  intro place
  rw [Nat.testBit_and, Nat.testBit_shiftLeft]
  by_cases hplace : 32 ≤ place
  · have hlength : bounds.length.toNat < 2 ^ place :=
      Nat.lt_of_lt_of_le bounds.length.toNat_lt (Nat.pow_le_pow_right Nat.two_pos hplace)
    rw [Nat.testBit_lt_two_pow hlength, Bool.and_false]
    exact (Nat.zero_testBit place).symm
  · rw [decide_eq_false hplace, Bool.false_and, Bool.false_and]
    exact (Nat.zero_testBit place).symm

theorem toNat_offset_ofWord (word : UInt64) :
    (ofWord word).offset.toNat = word.toNat / 2 ^ 32 := by
  have hword : word.toNat < 2 ^ 64 := word.toNat_lt
  have hwidth : (32 : UInt64).toNat % 64 = 32 := rfl
  rw [ofWord, UInt64.toNat_toUInt32, UInt64.toNat_shiftRight, hwidth, Nat.shiftRight_eq_div_pow]
  omega

theorem toNat_length_ofWord (word : UInt64) :
    (ofWord word).length.toNat = word.toNat % 2 ^ 32 := by
  rw [ofWord, UInt64.toNat_toUInt32]

theorem ofWord_toWord (bounds : Bounds) : ofWord bounds.toWord = bounds := by
  have hoffset : bounds.offset.toNat < 2 ^ 32 := bounds.offset.toNat_lt
  have hlength : bounds.length.toNat < 2 ^ 32 := bounds.length.toNat_lt
  have hupper : (ofWord bounds.toWord).offset = bounds.offset := by
    apply UInt32.toNat_inj.mp
    rw [toNat_offset_ofWord, toNat_toWord]
    omega
  have hlower : (ofWord bounds.toWord).length = bounds.length := by
    apply UInt32.toNat_inj.mp
    rw [toNat_length_ofWord, toNat_toWord]
    omega
  exact (mk.injEq _ _ _ _).mpr ⟨hupper, hlower⟩

theorem toWord_ofWord (word : UInt64) : (ofWord word).toWord = word := by
  apply UInt64.toNat_inj.mp
  rw [toNat_toWord, toNat_offset_ofWord, toNat_length_ofWord]
  exact Nat.div_add_mod' word.toNat (2 ^ 32)

theorem toWord_bijective : Function.Bijective toWord :=
  ⟨Function.LeftInverse.injective ofWord_toWord, Function.RightInverse.surjective toWord_ofWord⟩

theorem toWord_eq_zero_iff {bounds : Bounds} : bounds.toWord = 0 ↔ bounds = whole :=
  toWord_bijective.injective.eq_iff' (b := whole) rfl

/-- Each window has a word of its own, and each word is the word of a window. The two numbers of a
window stand side by side in its word, and the word of the whole item alone is zero. -/
theorem windows_are_words (bounds : Bounds) (word : UInt64) :
    ofWord bounds.toWord = bounds ∧ (ofWord word).toWord = word ∧ Function.Bijective toWord ∧
    bounds.toWord.toNat = bounds.offset.toNat * 2 ^ 32 + bounds.length.toNat ∧
    bounds.offset.toUInt64 <<< 32 &&& bounds.length.toUInt64 = 0 ∧
    (bounds.toWord = 0 ↔ bounds = whole) := by
  exact ⟨bounds.ofWord_toWord, toWord_ofWord word, toWord_bijective, bounds.toNat_toWord,
    bounds.halves_disjoint, toWord_eq_zero_iff⟩

end ScriptHost.Bounds
