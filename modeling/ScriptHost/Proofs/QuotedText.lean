import Mathlib.Tactic.IntervalCases
import ScriptHost.Text.Quoted

/-! String literals read back. Whatever text is quoted, reading the literal gives it again, and a
text without quotes, backslashes and control characters is quoted as it stands. -/

namespace ScriptHost.Quoted

/-- The character stands for itself inside a literal. -/
def Plain (c : Char) : Prop :=
  c ≠ '"' ∧ c ≠ '\\' ∧ 0x20 ≤ c.toNat

instance (c : Char) : Decidable (Plain c) :=
  inferInstanceAs (Decidable (_ ∧ _ ∧ _))

variable {c : Char} {text rest : List Char}

theorem Plain.escape_eq (h : Plain c) : escape c = [c] := by
  obtain ⟨hquote, hslash, hlow⟩ := h
  have hne (other : Char) (hother : other.toNat < 0x20) : c ≠ other := by
    intro heq
    rw [heq] at hlow
    omega
  have hnone : letters.lookup c = none := by
    rw [List.lookup_eq_none_iff]
    simp only [letters, List.forall_mem_cons, bne_iff_ne]
    exact ⟨hquote, hslash, hne _ (by decide), hne _ (by decide), hne _ (by decide),
      hne _ (by decide), hne _ (by decide), List.forall_mem_nil _⟩
  have hnot : ¬ c.toNat < 0x20 := by omega
  rw [escape, hnone]
  exact if_neg hnot

theorem Plain.character?_eq (h : Plain c) (rest : List Char) :
    character? (c :: rest) = some (c, rest) := by
  obtain ⟨hquote, hslash, hlow⟩ := h
  have hplain : ¬ (c = '"' ∨ c = '\\' ∨ c.toNat < 0x20) := by
    rintro (heq | heq | hlt)
    · exact hquote heq
    · exact hslash heq
    · omega
  rw [character?.eq_def]
  split
  · next heq => exact absurd (List.cons.inj heq).1 hslash
  · next heq => exact absurd (List.cons.inj heq).1 hslash
  · next heq =>
    obtain ⟨rfl, rfl⟩ := List.cons.inj heq
    rw [if_neg hplain]
  · next heq => cases heq

/-- A control character is written as its letter or as its number. -/
theorem character?_control {n : Nat} (h : n < 0x20) (rest : List Char) :
    character? (escape (Char.ofNat n) ++ rest) = some (Char.ofNat n, rest) := by
  interval_cases n <;> rfl

theorem character?_escape (c : Char) (rest : List Char) :
    character? (escape c ++ rest) = some (c, rest) := by
  by_cases hlow : c.toNat < 0x20
  · have hread := character?_control hlow rest
    rwa [Char.ofNat_toNat] at hread
  · by_cases hquote : c = '"'
    · subst hquote
      rfl
    · by_cases hslash : c = '\\'
      · subst hslash
        rfl
      · have hplain : Plain c := ⟨hquote, hslash, by omega⟩
        rw [hplain.escape_eq]
        exact hplain.character?_eq rest

theorem contents?_cons (h : character? text = some (c, rest)) :
    contents? text = (contents? rest).map fun (more, after) => (c :: more, after) := by
  rw [contents?]
  split
  · next other tail hfront =>
    obtain ⟨rfl, rfl⟩ := Prod.mk.inj (Option.some.inj (hfront.symm.trans h))
    rfl
  · next hnone =>
    rw [h] at hnone
    cases hnone

theorem contents?_end (after : List Char) : contents? ('"' :: after) = some ([], after) := by
  have hnone : character? ('"' :: after) = none := rfl
  rw [contents?]
  split
  · next hfront =>
    rw [hnone] at hfront
    cases hfront
  · rfl

/-- The inside of a literal is read up to the quote that closes it. -/
theorem contents?_escaped (text after : List Char) :
    contents? (text.flatMap escape ++ '"' :: after) = some (text, after) := by
  induction text with
  | nil => exact contents?_end after
  | cons c text ih =>
    rw [List.flatMap_cons, List.append_assoc, contents?_cons (character?_escape c _), ih]
    rfl

theorem read?_quote (text : List Char) : read? (quote text) = some text := by
  have hinside := contents?_escaped text []
  have hfront : (quote text).dropWhile isBlank = '"' :: (text.flatMap escape ++ ['"']) := rfl
  simp only [read?, hfront, hinside, Option.bind_eq_bind, Option.bind_some]
  rfl

theorem quote_of_plain (h : ∀ c ∈ text, Plain c) : quote text = '"' :: text ++ ['"'] := by
  have hinside : text.flatMap escape = text := by
    induction text with
    | nil => rfl
    | cons c text ih =>
      obtain ⟨hc, hrest⟩ := List.forall_mem_cons.mp h
      rw [List.flatMap_cons, hc.escape_eq, ih hrest]
      rfl
  rw [quote, hinside]

end ScriptHost.Quoted
