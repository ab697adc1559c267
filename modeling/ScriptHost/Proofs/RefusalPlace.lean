import Mathlib.Algebra.Group.Nat.Defs
import Mathlib.Data.List.TakeWhile
import ScriptHost.Json.Position

/-! Places at the end of a text. A text ends in at most one place, and a refusal is shown as it is
unless its text ends in one. -/

namespace ScriptHost.Json

/-- A numeral in decimal digits, leading zeros or not, of a number that fits a word. -/
structure Numeral (text : List Char) (n : Nat) : Prop where
  ne_nil : text ≠ []
  isDigit : ∀ c ∈ text, c.isDigit
  value_eq : n = text.foldl (fun n c => 10 * n + (c.toNat - 48)) 0
  lt_size : n < 2 ^ 64

/-- The text ends in a place, and has something before it. -/
def Placed (text before : List Char) (place : Position) : Prop :=
  ∃ line column, Numeral line place.line ∧ Numeral column place.column ∧
    text = before ++ " at line ".toList ++ line ++ " column ".toList ++ column

section Digits

variable {text rest : List Char}

theorem digits_append (h : ∀ c ∈ text, c.isDigit) (hrest : ∀ c ∈ rest.head?, ¬ c.isDigit) :
    digits (text ++ rest) = (text.map fun c => c.toNat - 48, rest) := by
  rw [digits, List.takeWhile_append_of_pos h, List.dropWhile_append_of_pos h]
  cases rest with
  | nil => rw [List.takeWhile_nil, List.dropWhile_nil, List.append_nil]
  | cons c tail =>
    have hc : ¬ c.isDigit := hrest c rfl
    rw [List.takeWhile_cons_of_neg hc, List.dropWhile_cons_of_neg hc, List.append_nil]

/-- What is split off the front is all digits, and no digit follows it. -/
theorem exists_digits (text : List Char) :
    ∃ front rest, text = front ++ rest ∧ (∀ c ∈ front, c.isDigit) ∧
      (∀ c ∈ rest.head?, ¬ c.isDigit) := by
  refine ⟨text.takeWhile Char.isDigit, text.dropWhile Char.isDigit,
    List.takeWhile_append_dropWhile.symm, ?_, ?_⟩
  · intro c hc
    exact List.mem_takeWhile_imp hc
  · intro c hc
    have hnot := List.head?_dropWhile_not Char.isDigit text
    rw [Option.mem_def.mp hc] at hnot
    exact Bool.not_eq_true _ ▸ hnot

theorem wordOf?_eq_some_iff {n : Nat} (h : ∀ c ∈ text, c.isDigit) :
    wordOf? (text.map fun c => c.toNat - 48) = some n ↔ Numeral text n := by
  have hvalue : ofDigits (text.map fun c => c.toNat - 48) =
      text.foldl (fun n c => 10 * n + (c.toNat - 48)) 0 := by
    rw [ofDigits, List.foldl_map]
  rw [wordOf?, hvalue]
  constructor
  · intro hword
    split at hword
    · cases hword
    · next hn =>
      cases hword
      simp only [List.map_eq_nil_iff, not_or, UInt64.size] at hn
      exact ⟨hn.1, h, rfl, by omega⟩
  · intro hnumeral
    have hfits : ¬ (text.map (fun c => c.toNat - 48) = [] ∨ UInt64.size ≤ n) := by
      rintro (hnil | hlarge)
      · exact hnumeral.ne_nil (List.map_eq_nil_iff.mp hnil)
      · exact absurd hnumeral.lt_size (Nat.not_lt_of_le hlarge)
    rw [← hnumeral.value_eq, if_neg hfits]

theorem not_isDigit_columnMark (rest : List Char) :
    ∀ c ∈ (columnMark ++ rest).head?, ¬ c.isDigit := by
  intro c hc
  have hspace : c = ' ' := (Option.some.inj hc).symm
  rw [hspace]
  decide

/-- A place is read from two numerals with the mark of the column between them, and from nothing
else. -/
theorem ofText?_eq_some_iff {place : Position} :
    Position.ofText? text = some place ↔
      ∃ line column, Numeral line place.line ∧ Numeral column place.column ∧
        text = line ++ columnMark ++ column := by
  constructor
  · intro h
    obtain ⟨line, rest, rfl, hline, hrest⟩ := exists_digits text
    rw [Position.ofText?, digits_append hline hrest] at h
    dsimp only at h
    split at h
    · next hmark =>
      obtain ⟨after, rfl⟩ := List.isPrefixOf_iff_prefix.mp hmark
      obtain ⟨column, tail, rfl, hcolumn, htail⟩ := exists_digits after
      rw [List.drop_left, digits_append hcolumn htail] at h
      dsimp only at h
      split at h
      · next hnil =>
        simp only [Option.bind_eq_bind, Option.bind_eq_some_iff] at h
        obtain ⟨l, hl, c, hc, hplace⟩ := h
        obtain rfl := Option.some.inj hplace
        refine ⟨line, column, (wordOf?_eq_some_iff hline).mp hl,
          (wordOf?_eq_some_iff hcolumn).mp hc, ?_⟩
        rw [hnil, List.append_nil, List.append_assoc]
      · cases h
    · cases h
  · rintro ⟨line, column, hline, hcolumn, rfl⟩
    have hfirst := digits_append hline.isDigit (not_isDigit_columnMark column)
    have hsecond : digits (column ++ []) = (column.map fun c => c.toNat - 48, []) := by
      apply digits_append hcolumn.isDigit
      exact fun c hc => absurd hc (Option.not_mem_none c)
    rw [List.append_nil] at hsecond
    have hmark : columnMark.isPrefixOf (columnMark ++ column) = true :=
      List.isPrefixOf_iff_prefix.mpr (List.prefix_append _ _)
    have hl := (wordOf?_eq_some_iff hline.isDigit).mpr hline
    have hc := (wordOf?_eq_some_iff hcolumn.isDigit).mpr hcolumn
    rw [Position.ofText?, List.append_assoc, hfirst]
    dsimp only
    rw [if_pos hmark, List.drop_left, hsecond]
    simp only [if_pos, hl, hc]
    rfl

end Digits

/-- The last mark is found where no later one follows. -/
theorem splitLast?_append {mark rest : List Char} (hne : mark ≠ [])
    (hlast : ¬ mark <:+: (mark ++ rest).tail) (before : List Char) :
    splitLast? mark (before ++ mark ++ rest) = some (before, rest) := by
  -- By induction on what stands before: a mark that is found behind the first character stays.
  induction before with
  | nil =>
    obtain ⟨c, tail, rfl⟩ := List.exists_cons_of_ne_nil hne
    have hmark : (c :: tail).isPrefixOf (c :: (tail ++ rest)) = true :=
      List.isPrefixOf_iff_prefix.mpr (List.prefix_append (c :: tail) rest)
    rw [List.cons_append, List.tail_cons] at hlast
    simp only [List.nil_append, List.cons_append, splitLast?]
    rw [splitLast?_eq_none hlast, if_pos hmark]
    have hdrop : (c :: (tail ++ rest)).drop (c :: tail).length = rest :=
      List.drop_left
    rw [hdrop]
  | cons c before ih =>
    simp only [List.cons_append, splitLast?, ih]

variable {text before : List Char} {place : Position}

/-- Behind the mark of a line there is no other, for it would bring a letter that neither numerals
nor the mark of a column have. -/
theorem no_lineMark_behind {line column : List Char} (hline : ∀ c ∈ line, c.isDigit)
    (hcolumn : ∀ c ∈ column, c.isDigit) :
    ¬ lineMark <:+: (lineMark ++ (line ++ columnMark ++ column)).tail := by
  have hnumeral {numeral : List Char} (h : ∀ c ∈ numeral, c.isDigit) : 'a' ∉ numeral :=
    fun hmem => absurd (h 'a' hmem) (by decide)
  have habsent : 'a' ∉ "t line ".toList ++ (line ++ columnMark ++ column) := by
    simp only [List.mem_append, not_or]
    exact ⟨by decide, ⟨hnumeral hline, by decide⟩, hnumeral hcolumn⟩
  have htail : (lineMark ++ (line ++ columnMark ++ column)).tail =
      'a' :: ("t line ".toList ++ (line ++ columnMark ++ column)) := rfl
  rw [htail]
  rintro ⟨front, back, heq⟩
  cases front with
  | nil => cases heq
  | cons c front =>
    have hbehind : front ++ lineMark ++ back =
        "t line ".toList ++ (line ++ columnMark ++ column) := (List.cons.inj heq).2
    have hletter : 'a' ∈ lineMark := by decide
    apply habsent
    rw [← hbehind]
    exact List.mem_append_left back (List.mem_append_right front hletter)

theorem splitPosition?_eq_some_iff :
    splitPosition? text = some (before, place) ↔ Placed text before place := by
  simp only [splitPosition?, Option.bind_eq_bind, Option.bind_eq_some_iff]
  constructor
  · rintro ⟨⟨front, after⟩, hsplit, position, hread, hparts⟩
    cases hparts
    obtain ⟨line, column, hline, hcolumn, rfl⟩ := ofText?_eq_some_iff.mp hread
    refine ⟨line, column, hline, hcolumn, ?_⟩
    rw [eq_append_of_splitLast? hsplit]
    simp only [List.append_assoc]
    rfl
  · rintro ⟨line, column, hline, hcolumn, rfl⟩
    have hread := ofText?_eq_some_iff.mpr ⟨line, column, hline, hcolumn, rfl⟩
    have hne : lineMark ≠ [] := by decide
    have hsplit := splitLast?_append hne (no_lineMark_behind hline.isDigit hcolumn.isDigit) before
    refine ⟨(before, line ++ columnMark ++ column), ?_, place, hread, rfl⟩
    rw [← hsplit]
    simp only [List.append_assoc]
    rfl

theorem showRefusal_of_placed {text : String} (h : Placed text.toList before place) :
    showRefusal text = String.ofList before ++ place.write := by
  rw [showRefusal, splitPosition?_eq_some_iff.mpr h]

theorem showRefusal_of_not_placed {text : String}
    (h : ∀ before place, ¬ Placed text.toList before place) : showRefusal text = text := by
  rw [showRefusal]
  split
  · next before place hsplit => exact absurd (splitPosition?_eq_some_iff.mp hsplit) (h _ _)
  · rfl

end ScriptHost.Json
