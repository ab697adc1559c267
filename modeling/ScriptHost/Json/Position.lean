import ScriptHost.Json.Number

/-!
Places in refusals. A refusal whose text ends in a place is taken to be about that place, which is
then shown in its plain form, or not at all when its line is zero.
-/

namespace ScriptHost.Json

/-- A place in a JSON text. Lines count from one, and line zero stands for no place. -/
structure Position where
  line : Nat
  column : Nat
deriving DecidableEq, Repr

def lineMark : List Char :=
  " at line ".toList

def columnMark : List Char :=
  " column ".toList

/-- The text before and after the last occurrence of a mark. -/
def splitLast? (mark : List Char) : List Char → Option (List Char × List Char)
  | [] => none
  | c :: rest =>
    match splitLast? mark rest with
    | some (before, after) => some (c :: before, after)
    | none => if mark.isPrefixOf (c :: rest) then some ([], (c :: rest).drop mark.length) else none

/-- The number that digits spell, if there are any and it fits a word. Leading zeros do no harm. -/
def wordOf? (ds : List Nat) : Option Nat :=
  if ds = [] ∨ UInt64.size ≤ ofDigits ds then none else some (ofDigits ds)

/-- Reads a text as a line and a column, with nothing before or after them. -/
def Position.ofText? (text : List Char) : Option Position :=
  let (line, text) := digits text
  if columnMark.isPrefixOf text then
    let (column, text) := digits (text.drop columnMark.length)
    if text = [] then do
      let line ← wordOf? line
      let column ← wordOf? column
      some ⟨line, column⟩
    else none
  else none

/-- Splits off the place that a text ends in. Only what follows the last mark is tried. -/
def splitPosition? (text : List Char) : Option (List Char × Position) := do
  let (before, after) ← splitLast? lineMark text
  let position ← Position.ofText? after
  some (before, position)

/-- A place as a refusal shows it. -/
def Position.write (position : Position) : String :=
  if position.line = 0 then ""
  else " at line " ++ toString position.line ++ " column " ++ toString position.column

/-- The text of a refusal as it is shown. -/
def showRefusal (text : String) : String :=
  match splitPosition? text.toList with
  | some (before, position) => String.ofList before ++ position.write
  | none => text

/-- Whatever is split off is a mark and what follows it. -/
theorem eq_append_of_splitLast? {mark text before after : List Char}
    (h : splitLast? mark text = some (before, after)) : text = before ++ mark ++ after := by
  induction text generalizing before with
  | nil => exact absurd h (by simp [splitLast?])
  | cons c rest ih =>
    rw [splitLast?] at h
    split at h
    · next front back hs =>
      obtain ⟨rfl, rfl⟩ := Prod.mk.inj (Option.some.inj h)
      simp only [ih hs, List.cons_append]
    · split at h
      · next hm =>
        obtain ⟨rfl, rfl⟩ := Prod.mk.inj (Option.some.inj h)
        obtain ⟨back, hb⟩ := List.isPrefixOf_iff_prefix.1 hm
        simp only [← hb, List.nil_append, List.drop_left]
      · exact absurd h (by simp)

theorem splitLast?_eq_none {mark text : List Char} (hm : ¬ mark <:+: text) :
    splitLast? mark text = none := by
  cases h : splitLast? mark text with
  | none => rfl
  | some parts =>
    obtain ⟨before, after⟩ := parts
    exact absurd ⟨before, after, (eq_append_of_splitLast? h).symm⟩ hm

end ScriptHost.Json
