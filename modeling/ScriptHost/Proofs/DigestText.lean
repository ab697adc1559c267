import ScriptHost.Proofs.DigestGrammar
import ScriptHost.Proofs.HexText
import ScriptHost.Proofs.QuotedText

/-! Digests as text and back. A digest is shown by one text, and the texts that are read as it are
those that spell this one, with or without the mark and in letters of either case. -/

namespace ScriptHost.Digest

variable {text other : String} {digest : Digest}

theorem toText_eq (digest : Digest) :
    digest.toText = "0x" ++ String.ofList (Hex.encode digest.bytes) := by
  have hmark : "0x" = String.ofList ['0', 'x'] := rfl
  rw [hmark, ← String.ofList_append]
  rfl

theorem toList_toText (digest : Digest) :
    digest.toText.toList = "0x".toList ++ Hex.encode digest.bytes := by
  rw [toText, String.toList_ofList]
  rfl

/-- A text is read as a digest just when its digits in lower case are those of the digest. -/
theorem parse_eq_ok_iff_lower :
    parse text = .ok digest ↔
      (digitsOf text.toList).map Char.toLower = Hex.encode digest.bytes := by
  rw [parse_eq_ok_iff, Hex.spells_iff]

/-- Digits alone have no mark in front of them. -/
theorem digitsOf_of_digits {digits : List Char} (h : ∀ c ∈ digits, c ∈ Hex.digits) :
    digitsOf digits = digits := by
  rw [digitsOf_eq]
  apply if_neg
  rintro ⟨rest, hmarked⟩
  have hletter : 'x' ∈ digits := by
    rw [← hmarked]
    exact List.mem_append_left rest (by decide)
  exact absurd (h 'x' hletter) (by decide)

theorem digitsOf_marked (digits : List Char) : digitsOf ("0x".toList ++ digits) = digits := rfl

/-- Digits in any case, without a mark and with one. -/
theorem parse_of_lower {spelling : List Char}
    (h : spelling.map Char.toLower = Hex.encode digest.bytes) :
    parse (String.ofList spelling) = .ok digest ∧
      parse ("0x" ++ String.ofList spelling) = .ok digest := by
  have hdigits := (Hex.spells_iff.mpr h).mem_digits
  constructor
  · rw [parse_eq_ok_iff_lower, String.toList_ofList, digitsOf_of_digits hdigits]
    exact h
  · have hmarked : ("0x" ++ String.ofList spelling).toList = "0x".toList ++ spelling := by
      rw [String.toList_append]
      exact congrArg ("0x".toList ++ ·) String.toList_ofList
    rw [parse_eq_ok_iff_lower, hmarked, digitsOf_marked]
    exact h

theorem map_toLower_encode (bytes : Bytes) :
    (Hex.encode bytes).map Char.toLower = Hex.encode bytes :=
  (Hex.encode_spells bytes).map_toLower

theorem parse_toText (digest : Digest) : parse digest.toText = .ok digest := by
  rw [toText_eq]
  exact (parse_of_lower (map_toLower_encode digest.bytes)).2

/-- What a text is shown as after it was read. -/
theorem toText_of_parse (h : parse text = .ok digest) :
    digest.toText = "0x" ++ String.ofList ((digitsOf text.toList).map Char.toLower) := by
  rw [toText_eq, parse_eq_ok_iff_lower.mp h]

/-- A digest is its text. -/
theorem toText_inj {first second : Digest} : first.toText = second.toText ↔ first = second := by
  constructor
  · intro h
    have hparse := parse_toText first
    rw [h, parse_toText] at hparse
    exact (Except.ok.inj hparse).symm
  · exact congrArg toText

theorem eq_iff_lower {otherDigest : Digest} (h : parse text = .ok digest)
    (ho : parse other = .ok otherDigest) :
    digest = otherDigest ↔
      (digitsOf text.toList).map Char.toLower = (digitsOf other.toList).map Char.toLower := by
  rw [parse_eq_ok_iff_lower.mp h, parse_eq_ok_iff_lower.mp ho]
  constructor
  · intro heq
    rw [heq]
  · intro hencode
    have hbytes : digest.bytes = otherDigest.bytes := Hex.encode_injective hencode
    obtain ⟨bytes, hlength⟩ := digest
    obtain ⟨others, hother⟩ := otherDigest
    cases hbytes
    rfl

/-- No character of a digest's text needs an escape. -/
theorem plain_of_mem_toText (digest : Digest) : ∀ c ∈ digest.toText.toList, Quoted.Plain c := by
  intro c hc
  rw [toList_toText] at hc
  rcases List.mem_append.mp hc with hmark | hdigit
  · have hmark : c = '0' ∨ c = 'x' := by simpa using hmark
    rcases hmark with rfl | rfl <;> decide
  · have hlower := Hex.mem_lowerDigits_of_encode digest.bytes c hdigit
    exact Hex.of_all_digits (P := Quoted.Plain) (by decide +kernel) (Hex.mem_digits_of_lower hlower)

theorem toJson_eq (digest : Digest) : digest.toJson = "\"" ++ digest.toText ++ "\"" := by
  have hquote : "\"" = String.ofList ['"'] := rfl
  rw [toJson, Quoted.quote_of_plain (plain_of_mem_toText digest), String.ofList_append, hquote]
  have hcons : '"' :: digest.toText.toList = ['"'] ++ digest.toText.toList := rfl
  rw [hcons, String.ofList_append, String.ofList_toList]

theorem readJson?_toJson (digest : Digest) : readJson? digest.toJson = some (.ok digest) := by
  have hread : ofJson (.string digest.toText) = .ok digest := ofJson_of_ok (parse_toText digest)
  rw [readJson?, toJson, String.toList_ofList, Quoted.read?_quote, Option.map_some,
    String.ofList_toList, hread]

/-- What becomes the digits of a digest in lower case is those digits. -/
theorem map_toLower_of_toText {spelling : List Char}
    (h : "0x" ++ String.ofList (spelling.map Char.toLower) = digest.toText) :
    spelling.map Char.toLower = Hex.encode digest.bytes := by
  have hlists := congrArg String.toList h
  rw [toList_toText, String.toList_append] at hlists
  have hinner : (String.ofList (spelling.map Char.toLower)).toList = spelling.map Char.toLower :=
    String.toList_ofList
  rw [hinner] at hlists
  exact List.append_cancel_left hlists

/-- A digest is shown as the mark and sixty-four digits of lower case, two for each byte. Whatever
the case of its letters, and with the mark or without it, this text is read as the digest. In JSON
it stands between quotes as it is, and is read back too. Of a text that is read the digits are shown
in lower case, so that to show again what is shown changes nothing, and two such texts are one
digest just when their digits are the same but for the case. -/
theorem text_round_trip (digest : Digest) :
    let lower (text : String) : List Char :=
      (if "0x".toList <+: text.toList then text.toList.drop 2 else text.toList).map Char.toLower
    (∃ digits : List Char, digest.toText = "0x" ++ String.ofList digits ∧ digits.length = 64 ∧
      (∀ c ∈ digits, c ∈ "0123456789abcdef".toList) ∧ Hex.Spells digits digest.bytes) ∧
    (∀ spelling : List Char, "0x" ++ String.ofList (spelling.map Char.toLower) = digest.toText →
      parse (String.ofList spelling) = .ok digest ∧
        parse ("0x" ++ String.ofList spelling) = .ok digest) ∧
    digest.toJson = "\"" ++ digest.toText ++ "\"" ∧ '\\' ∉ digest.toText.toList ∧
    readJson? digest.toJson = some (.ok digest) ∧
    (∀ text, parse text = .ok digest → digest.toText = "0x" ++ String.ofList (lower text)) ∧
    (∀ text shown, (parse text).map toText = .ok shown →
      (parse shown).map toText = .ok shown) ∧
    (∀ text other otherDigest, parse text = .ok digest → parse other = .ok otherDigest →
      (digest = otherDigest ↔ lower text = lower other)) := by
  intro lower
  have hlower (text : String) : (digitsOf text.toList).map Char.toLower = lower text := by
    rw [digitsOf_eq]
  refine ⟨⟨Hex.encode digest.bytes, toText_eq digest, ?_, ?_, ?_⟩, ?_, toJson_eq digest, ?_,
    readJson?_toJson digest, ?_, ?_, ?_⟩
  · rw [Hex.length_encode, digest.length_bytes]
  · exact Hex.mem_lowerDigits_of_encode digest.bytes
  · exact Hex.encode_spells digest.bytes
  · intro spelling hspelling
    exact parse_of_lower (map_toLower_of_toText hspelling)
  · intro hslash
    exact (plain_of_mem_toText digest '\\' hslash).2.1 rfl
  · intro text hparse
    rw [← hlower]
    exact toText_of_parse hparse
  · intro text shown hshown
    cases hparse : parse text with
    | error error =>
      rw [hparse] at hshown
      cases hshown
    | ok read =>
      rw [hparse] at hshown
      have htext : read.toText = shown := Except.ok.inj hshown
      rw [← htext, parse_toText]
      rfl
  · intro text other otherDigest hparse hother
    rw [← hlower, ← hlower]
    exact eq_iff_lower hparse hother

/-- The bytes one to thirty-two are spelled with a capital letter here and there. -/
theorem text_round_trip_mixed :
    let digest : Digest := ⟨(List.range 32).map (UInt8.ofNat ∘ Nat.succ), by decide⟩
    let spelling := "0102030405060708090A0b0C0d0E0f101112131415161718191a1B1c1D1e1F20".toList
    let other := "0x0102030405060708090a0b0c0d0e0f101112131415161718191A1B1C1D1E1F20"
    ("0x" ++ String.ofList (spelling.map Char.toLower) = digest.toText ∧
        parse other = .ok digest) ∧
      parse (String.ofList spelling) = .ok digest ∧
      parse ("0x" ++ String.ofList spelling) = .ok digest ∧
      digest.toText = "0x0102030405060708090a0b0c0d0e0f101112131415161718191a1b1c1d1e1f20" ∧
      (parse digest.toText).map toText = .ok digest.toText := by
  intro digest spelling other
  have hspelling : "0x" ++ String.ofList (spelling.map Char.toLower) = digest.toText := by
    decide +kernel
  have hother : parse other = .ok digest := by decide +kernel
  obtain ⟨-, hread, -, -, -, hshown, hagain, -⟩ := digest.text_round_trip
  obtain ⟨hplain, hmarked⟩ := hread spelling hspelling
  refine ⟨⟨hspelling, hother⟩, hplain, hmarked, ?_, ?_⟩
  · rw [hshown other hother]
    decide +kernel
  · apply hagain other
    rw [hother]
    rfl

end ScriptHost.Digest
