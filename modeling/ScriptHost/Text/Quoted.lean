import ScriptHost.Text.Hex

/-!
JSON string literals. A quote, a backslash and the control characters are written as escapes, and
every other character stands for itself. Reading takes every escape that JSON has.
-/

namespace ScriptHost.Quoted

/-- The escape letters of the characters that have one of their own. -/
def letters : List (Char × Char) :=
  [('"', '"'), ('\\', '\\'), ('\x08', 'b'), ('\x0c', 'f'), ('\n', 'n'), ('\r', 'r'), ('\t', 't')]

/-- One character inside a literal. -/
def escape (c : Char) : List Char :=
  match letters.lookup c with
  | some letter => ['\\', letter]
  | none =>
    if c.toNat < 0x20 then
      ['\\', 'u', '0', '0', Nat.digitChar (c.toNat / 16), Nat.digitChar (c.toNat % 16)]
    else [c]

/-- A text as a literal, quotes included. -/
def quote (text : List Char) : List Char :=
  '"' :: text.flatMap escape ++ ['"']

/-- The character that an escape letter stands for. A slash has one that is never needed. -/
def named? (letter : Char) : Option Char :=
  if letter = '/' then some '/' else (letters.find? (·.2 = letter)).map Prod.fst

/-- The number that four hexadecimal digits at the front spell, and what follows them. -/
def unit? : List Char → Option (Nat × List Char)
  | a :: b :: c :: d :: rest => do
    let a ← Hex.digit? a
    let b ← Hex.digit? b
    let c ← Hex.digit? c
    let d ← Hex.digit? d
    some (16 * (16 * (16 * a + b) + c) + d, rest)
  | _ => none

/-- The character that a number at the front stands for, or that it stands for together with the
number of a second escape, and what follows. -/
def numbered? (text : List Char) : Option (Char × List Char) := do
  let (unit, rest) ← unit? text
  if unit < 0xD800 ∨ 0xDFFF < unit then some (Char.ofNat unit, rest)
  else
    -- One half of a surrogate pair alone is no character.
    let (low, after) ← unit? (rest.drop 2)
    if ['\\', 'u'].isPrefixOf rest ∧ unit ≤ 0xDBFF ∧ 0xDC00 ≤ low ∧ low ≤ 0xDFFF then
      some (Char.ofNat (0x10000 + 0x400 * (unit - 0xD800) + (low - 0xDC00)), after)
    else none

/-- The character at the front inside a literal, and what follows it. There is none where the
literal ends. -/
def character? : List Char → Option (Char × List Char)
  | '\\' :: 'u' :: rest => numbered? rest
  | '\\' :: letter :: rest => (named? letter).map fun c => (c, rest)
  | c :: rest => if c = '"' ∨ c = '\\' ∨ c.toNat < 0x20 then none else some (c, rest)
  | [] => none

theorem length_of_unit? {text rest : List Char} {unit : Nat} (h : unit? text = some (unit, rest)) :
    rest.length < text.length := by
  rw [unit?.eq_def] at h
  split at h
  · next a b c d tail =>
    simp only [Option.bind_eq_bind, Option.bind_eq_some_iff, Option.some.injEq, Prod.mk.injEq] at h
    obtain ⟨_, -, _, -, _, -, _, -, -, rfl⟩ := h
    simp only [List.length_cons]
    omega
  · cases h

theorem length_of_numbered? {text rest : List Char} {c : Char}
    (h : numbered? text = some (c, rest)) : rest.length < text.length := by
  simp only [numbered?, Option.bind_eq_bind, Option.bind_eq_some_iff] at h
  obtain ⟨⟨unit, tail⟩, hunit, h⟩ := h
  have htail := length_of_unit? hunit
  dsimp only at h
  split at h
  · cases h
    exact htail
  · simp only [Option.bind_eq_some_iff] at h
    obtain ⟨⟨low, after⟩, hlow, h⟩ := h
    have hafter := length_of_unit? hlow
    rw [List.length_drop] at hafter
    dsimp only at h
    split at h
    · obtain ⟨-, rfl⟩ := Prod.mk.inj (Option.some.inj h)
      omega
    · cases h

/-- Every character takes some of the text. -/
theorem length_of_character? {text rest : List Char} {c : Char}
    (h : character? text = some (c, rest)) : rest.length < text.length := by
  rw [character?.eq_def] at h
  split at h
  · have hrest := length_of_numbered? h
    simp only [List.length_cons]
    omega
  · obtain ⟨_, -, h⟩ := Option.map_eq_some_iff.mp h
    cases h
    simp only [List.length_cons]
    omega
  · split at h
    · cases h
    · cases h
      exact Nat.lt_succ_self _
  · cases h

/-- The text inside a literal whose opening quote has been read, and what follows its closing
quote. -/
def contents? (text : List Char) : Option (List Char × List Char) :=
  match _hfront : character? text with
  | some (c, rest) => (contents? rest).map fun (more, after) => (c :: more, after)
  | none => if text.head? = some '"' then some ([], text.tail) else none
termination_by text.length
decreasing_by exact length_of_character? _hfront

/-- What may stand around a literal. -/
def isBlank (c : Char) : Bool :=
  c = ' ' ∨ c = '\t' ∨ c = '\n' ∨ c = '\r'

/-- Reads a text that is one literal. -/
def read? (text : List Char) : Option (List Char) :=
  match text.dropWhile isBlank with
  | '"' :: inside => do
    let (content, after) ← contents? inside
    if after.all isBlank then some content else none
  | _ => none

end ScriptHost.Quoted
