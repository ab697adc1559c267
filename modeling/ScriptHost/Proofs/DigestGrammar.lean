import ScriptHost.Digest.Json
import ScriptHost.Proofs.HexDigits
import ScriptHost.Proofs.RefusalPlace

/-! Which texts are digests. A text is read just when its digits spell thirty-two bytes, and every
other text is refused with a message of its own. A JSON string is read like its text. -/

namespace ScriptHost.Digest

variable {text : String} {digest : Digest}

theorem digitsOf_eq (text : List Char) :
    digitsOf text = if "0x".toList <+: text then text.drop 2 else text := by
  have hmark : "0x".toList = ['0', 'x'] := rfl
  rw [hmark]
  split
  · next hprefix =>
    obtain ⟨rest, rfl⟩ := hprefix
    rfl
  · next hn =>
    rw [digitsOf.eq_def]
    split
    · next rest => exact absurd (List.prefix_append ['0', 'x'] rest) hn
    · rfl

theorem parse_of_spells {bytes : Bytes} (h : Hex.Spells (digitsOf text.toList) bytes) :
    parse text = ofBytes bytes := by
  rw [parse, Hex.decode?_eq_some_iff.mpr h]

theorem parse_of_decode?_none (h : Hex.decode? (digitsOf text.toList) = none) :
    parse text = .error (.notHex (String.ofList (digitsOf text.toList))) := by
  rw [parse, h]

theorem parse_eq_ok_iff :
    parse text = .ok digest ↔ Hex.Spells (digitsOf text.toList) digest.bytes := by
  constructor
  · intro h
    cases hread : Hex.decode? (digitsOf text.toList) with
    | none =>
      rw [parse_of_decode?_none hread] at h
      cases h
    | some bytes =>
      have hspells := Hex.decode?_spells hread
      rw [parse_of_spells hspells, ofBytes] at h
      split at h
      · cases h
        exact hspells
      · cases h
  · intro h
    rw [parse_of_spells h, ofBytes, dif_pos digest.length_bytes]

/-- The text is a digest just when it has sixty-four digits, and nothing else. -/
theorem exists_parse_iff :
    (∃ digest, parse text = .ok digest) ↔
      (digitsOf text.toList).length = 64 ∧ ∀ c ∈ digitsOf text.toList, c ∈ Hex.digits := by
  constructor
  · rintro ⟨digest, hparse⟩
    have hspells := parse_eq_ok_iff.mp hparse
    refine ⟨?_, hspells.mem_digits⟩
    rw [hspells.length_eq, digest.length_bytes]
  · rintro ⟨hlength, hdigits⟩
    obtain ⟨bytes, hread⟩ := Hex.exists_decode? (by omega) hdigits
    have hspells := Hex.decode?_spells hread
    have hsize : bytes.length = 32 := by
      have heq := hspells.length_eq
      omega
    exact ⟨⟨bytes, hsize⟩, parse_eq_ok_iff.mpr hspells⟩

/-- An even number of digits other than sixty-four is refused for its length. -/
theorem parse_of_length (hdigits : ∀ c ∈ digitsOf text.toList, c ∈ Hex.digits)
    (heven : (digitsOf text.toList).length % 2 = 0)
    (hlength : (digitsOf text.toList).length ≠ 64) :
    parse text = .error (.wrongLength ((digitsOf text.toList).length / 2)) := by
  obtain ⟨bytes, hread⟩ := Hex.exists_decode? heven hdigits
  have hspells := Hex.decode?_spells hread
  have heq := hspells.length_eq
  have hsize : bytes.length ≠ 32 := by omega
  have hhalf : (digitsOf text.toList).length / 2 = bytes.length := by omega
  rw [parse_of_spells hspells, ofBytes, dif_neg hsize, hhalf]

/-- The number of bytes counts like the number of characters where all of them are digits, and does
not matter where one of them is not. -/
theorem decode?_eq_none_iff_utf8 {digits : List Char} :
    Hex.decode? digits = none ↔
      (String.ofList digits).utf8ByteSize % 2 = 1 ∨ ∃ c ∈ digits, c ∉ Hex.digits := by
  rw [Hex.decode?_eq_none_iff]
  -- A character of several bytes is no digit, so that the two counts differ only where it does not
  -- matter.
  by_cases hbad : ∃ c ∈ digits, c ∉ Hex.digits
  · exact iff_of_true (Or.inr hbad) (Or.inr hbad)
  · have hdigits : ∀ c ∈ digits, c ∈ Hex.digits := by
      intro c hc
      by_contra hn
      exact hbad ⟨c, hc, hn⟩
    rw [Hex.utf8ByteSize_eq_length hdigits]

theorem ofJson_of_ok (h : parse text = .ok digest) : ofJson (.string text) = .ok digest := by
  rw [ofJson, h]
  rfl

theorem ofJson_of_error {error : DigestError} (h : parse text = .error error) :
    ofJson (.string text) = .error (.malformed error) := by
  rw [ofJson, h]
  rfl

theorem ofJson_of_ne_string {value : Json.Value} (h : ∀ text, value ≠ .string text) :
    ofJson value = .error (.notString value) := by
  cases value with
  | string text => exact absurd rfl (h text)
  | _ => rfl

/-- The digits of a text are what follows one leading mark, if there is one. The text is a digest
just when there are sixty-four of them, all hexadecimal, and then it is the digest of the bytes that
they spell. Otherwise it is refused: for its characters, if they do not make whole bytes, and else
for its length. A JSON string is read like its text, or refused with the same message. Only where
the message ends in a place, this is shown plainly, or not at all when its line is zero. No other
JSON value is read. -/
theorem text_grammar (text : String) :
    let digits := if "0x".toList <+: text.toList then text.toList.drop 2 else text.toList
    (∀ digest, parse text = .ok digest ↔ Hex.Spells digits digest.bytes) ∧
    ((∃ digest, parse text = .ok digest) ↔
      digits.length = 64 ∧ ∀ c ∈ digits, c ∈ Hex.digits) ∧
    ((String.ofList digits).utf8ByteSize % 2 = 1 ∨ (∃ c ∈ digits, c ∉ Hex.digits) →
      ∃ error, parse text = .error error ∧
        error.message = "Can't create Byte32 from string " ++ String.ofList digits) ∧
    ((∀ c ∈ digits, c ∈ Hex.digits) → digits.length % 2 = 0 → digits.length ≠ 64 →
      ∃ error, parse text = .error error ∧
        error.message = "Can't create Byte32 from slice length=" ++ toString (digits.length / 2)) ∧
    (∀ digest, parse text = .ok digest → ofJson (.string text) = .ok digest) ∧
    (∀ error, parse text = .error error →
      ∃ refusal, ofJson (.string text) = .error refusal ∧ refusal.text = error.message ∧
        ((∀ before place, ¬ Json.Placed error.message.toList before place) →
          refusal.message = error.message) ∧
        ∀ before place, Json.Placed error.message.toList before place →
          refusal.message = String.ofList before ++ if place.line = 0 then "" else
            " at line " ++ toString place.line ++ " column " ++ toString place.column) ∧
    (∀ value : Json.Value, (∀ other, value ≠ .string other) →
      ∃ refusal, ofJson value = .error refusal) := by
  intro digits
  have hdigits : digitsOf text.toList = digits := digitsOf_eq text.toList
  refine ⟨?_, ?_, ?_, ?_, ?_, ?_, ?_⟩
  · intro digest
    rw [← hdigits]
    exact parse_eq_ok_iff
  · rw [← hdigits]
    exact exists_parse_iff
  · intro hbad
    have hnone : Hex.decode? (digitsOf text.toList) = none := by
      rw [hdigits]
      exact decode?_eq_none_iff_utf8.mpr hbad
    refine ⟨_, parse_of_decode?_none hnone, ?_⟩
    rw [hdigits]
    rfl
  · intro hall heven hlength
    rw [← hdigits] at hall heven hlength ⊢
    exact ⟨_, parse_of_length hall heven hlength, rfl⟩
  · intro digest hparse
    exact ofJson_of_ok hparse
  · intro error hparse
    refine ⟨.malformed error, ofJson_of_error hparse, rfl, ?_, ?_⟩
    · intro hplain
      exact Json.showRefusal_of_not_placed hplain
    · intro before place hplaced
      exact Json.showRefusal_of_placed hplaced
  · intro value hvalue
    exact ⟨_, ofJson_of_ne_string hvalue⟩

/-- A text of other characters that ends in a place, whose zero is not shown. -/
theorem text_grammar_placed :
    let text := "zz at line 1 column 02"
    let message := "Can't create Byte32 from string zz at line 1 column 02"
    let before := "Can't create Byte32 from string zz".toList
    (∃ c ∈ text.toList, c ∉ Hex.digits) ∧ Json.Placed message.toList before ⟨1, 2⟩ ∧
      (∃ error, parse text = .error error ∧ error.message = message) ∧
      ∃ refusal, ofJson (.string text) = .error refusal ∧
        refusal.message = "Can't create Byte32 from string zz at line 1 column 2" := by
  intro text message before
  have hbad : ∃ c ∈ text.toList, c ∉ Hex.digits := ⟨'z', by decide +kernel, by decide +kernel⟩
  have hone : ∀ c ∈ ['1'], c.isDigit := List.forall_mem_singleton.mpr (by decide)
  have htwo : ∀ c ∈ ['0', '2'], c.isDigit :=
    List.forall_mem_cons.mpr ⟨by decide, List.forall_mem_singleton.mpr (by decide)⟩
  have hline : Json.Numeral ['1'] 1 := ⟨by decide, hone, by decide, by decide⟩
  have hcolumn : Json.Numeral ['0', '2'] 2 := ⟨by decide, htwo, by decide, by decide⟩
  have hplaced : Json.Placed message.toList before ⟨1, 2⟩ :=
    ⟨['1'], ['0', '2'], hline, hcolumn, by decide +kernel⟩
  have hnomark : ¬ "0x".toList <+: text.toList := by decide +kernel
  obtain ⟨-, -, hrefused, -, -, hjson, -⟩ := text_grammar text
  rw [if_neg hnomark] at hrefused
  obtain ⟨error, hparse, hmessage⟩ := hrefused (Or.inr hbad)
  have hsame : error.message = message := by
    rw [hmessage]
    decide +kernel
  obtain ⟨refusal, hread, -, -, hshown⟩ := hjson error hparse
  rw [hsame] at hshown
  refine ⟨hbad, hplaced, ⟨error, hparse, hsame⟩, refusal, hread, ?_⟩
  rw [hshown before ⟨1, 2⟩ hplaced]
  decide +kernel

/-- The end of this text looks like a place, and the JSON reader does not show it. -/
theorem message_shown_without_place :
    ∃ error refusal, parse "zz at line 0 column 3" = .error error ∧
      ofJson (.string "zz at line 0 column 3") = .error refusal ∧
      error.message = "Can't create Byte32 from string zz at line 0 column 3" ∧
      refusal.message = "Can't create Byte32 from string zz" ∧
      refusal.message ≠ error.message := by
  have hparse : parse "zz at line 0 column 3" = .error (.notHex "zz at line 0 column 3") := by
    decide +kernel
  exact ⟨_, _, hparse, ofJson_of_error hparse, by decide +kernel, by decide +kernel,
    by decide +kernel⟩

end ScriptHost.Digest
