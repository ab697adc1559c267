import ScriptHost.Proofs.TextRoundTrip

/-! The bytes of characters. What the reader takes for a lead, with the bounds that it sets for the
bytes behind it, is what characters are made of, and nothing else is. -/

namespace ScriptHost.Utf8

/-- The bytes are the first ones of a character, or all of them. -/
def Begins (bytes : Bytes) : Prop :=
  ∃ c : Char, bytes <+: String.utf8EncodeChar c

section Encoding

variable {lead second third fourth : UInt8} {value : Nat}

/-- Outside the surrogates every value up to the last code point has a character. -/
theorem toNat_ofNat (h : value < 0xD800 ∨ 0xDFFF < value ∧ value < 0x110000) :
    (Char.ofNat value).val.toNat = value := by
  rw [Char.ofNat, dif_pos h]
  rfl

/-- A byte that carries six bits. -/
def IsTail (b : UInt8) : Prop :=
  0x80 ≤ b.toNat ∧ b.toNat ≤ 0xBF

theorem ofNat_eq {n : Nat} {b : UInt8} (h : n = b.toNat) : UInt8.ofNat n = b := by
  rw [h, UInt8.ofNat_toNat]

theorem encodeChar_one (h : lead.toNat ≤ 0x7F) :
    String.utf8EncodeChar (Char.ofNat lead.toNat) = [lead] := by
  have hvalid : lead.toNat < 0xD800 := by omega
  simp only [String.utf8EncodeChar, toNat_ofNat (Or.inl hvalid), if_pos h, UInt8.ofNat_toNat]

theorem encodeChar_two (hlead : 0xC2 ≤ lead.toNat ∧ lead.toNat ≤ 0xDF) (hsecond : IsTail second)
    (hvalue : value = 64 * (lead.toNat - 0xC0) + (second.toNat - 0x80)) :
    String.utf8EncodeChar (Char.ofNat value) = [lead, second] := by
  obtain ⟨hlow, hhigh⟩ := hsecond
  have hvalid : value < 0xD800 := by omega
  have hlong : ¬ value ≤ 0x7F := by omega
  have hshort : value ≤ 0x7FF := by omega
  have hfirst : UInt8.ofNat (value / 64 % 32 + 0xC0) = lead := ofNat_eq (by omega)
  have hlast : UInt8.ofNat (value % 64 + 0x80) = second := ofNat_eq (by omega)
  simp only [String.utf8EncodeChar, toNat_ofNat (Or.inl hvalid), if_neg hlong, if_pos hshort,
    hfirst, hlast]

theorem encodeChar_three (hlead : 0xE0 ≤ lead.toNat ∧ lead.toNat ≤ 0xEF) (hsecond : IsTail second)
    (hthird : IsTail third)
    (hvalue : value =
      64 * (64 * (lead.toNat - 0xE0) + (second.toNat - 0x80)) + (third.toNat - 0x80))
    (hlong : 0x800 ≤ value) (hvalid : value < 0xD800 ∨ 0xDFFF < value) :
    String.utf8EncodeChar (Char.ofNat value) = [lead, second, third] := by
  obtain ⟨hlow, hhigh⟩ := hsecond
  obtain ⟨hlow', hhigh'⟩ := hthird
  have hone : ¬ value ≤ 0x7F := by omega
  have htwo : ¬ value ≤ 0x7FF := by omega
  have hshort : value ≤ 0xFFFF := by omega
  have hvalid : value < 0xD800 ∨ 0xDFFF < value ∧ value < 0x110000 := by omega
  have hfirst : UInt8.ofNat (value / 4096 % 16 + 0xE0) = lead := ofNat_eq (by omega)
  have hmiddle : UInt8.ofNat (value / 64 % 64 + 0x80) = second := ofNat_eq (by omega)
  have hlast : UInt8.ofNat (value % 64 + 0x80) = third := ofNat_eq (by omega)
  simp only [String.utf8EncodeChar, toNat_ofNat hvalid, if_neg hone, if_neg htwo, if_pos hshort,
    hfirst, hmiddle, hlast]

theorem encodeChar_four (hlead : 0xF0 ≤ lead.toNat ∧ lead.toNat ≤ 0xF4) (hsecond : IsTail second)
    (hthird : IsTail third) (hfourth : IsTail fourth)
    (hvalue : value = 64 * (64 * (64 * (lead.toNat - 0xF0) + (second.toNat - 0x80)) +
      (third.toNat - 0x80)) + (fourth.toNat - 0x80))
    (hlong : 0x10000 ≤ value) (hvalid : value < 0x110000) :
    String.utf8EncodeChar (Char.ofNat value) = [lead, second, third, fourth] := by
  obtain ⟨hlow, hhigh⟩ := hsecond
  obtain ⟨hlow', hhigh'⟩ := hthird
  obtain ⟨hlow'', hhigh''⟩ := hfourth
  have hone : ¬ value ≤ 0x7F := by omega
  have htwo : ¬ value ≤ 0x7FF := by omega
  have hthree : ¬ value ≤ 0xFFFF := by omega
  have hvalid : value < 0xD800 ∨ 0xDFFF < value ∧ value < 0x110000 := by omega
  have hfirst : UInt8.ofNat (value / 262144 % 8 + 0xF0) = lead := ofNat_eq (by omega)
  have hnext : UInt8.ofNat (value / 4096 % 64 + 0x80) = second := ofNat_eq (by omega)
  have hmiddle : UInt8.ofNat (value / 64 % 64 + 0x80) = third := ofNat_eq (by omega)
  have hlast : UInt8.ofNat (value % 64 + 0x80) = fourth := ofNat_eq (by omega)
  simp only [String.utf8EncodeChar, toNat_ofNat hvalid, if_neg hone, if_neg htwo, if_neg hthree,
    hfirst, hnext, hmiddle, hlast]

/-- No lead byte can be taken for a byte behind one, and only the zero character has a zero. -/
theorem exists_lead (c : Char) : ∃ lead tails, String.utf8EncodeChar c = lead :: tails ∧
    (lead.toNat = c.val.toNat ∧ lead.toNat < 0x80 ∨ 0xC0 ≤ lead.toNat) ∧
    ∀ b ∈ tails, 0x80 ≤ b.toNat := by
  have htail (n : Nat) : 0x80 ≤ (UInt8.ofNat (n % 64 + 0x80)).toNat := by
    rw [UInt8.toNat_ofNat']
    omega
  have hlast (n : Nat) : ∀ b ∈ [UInt8.ofNat (n % 64 + 0x80)], 0x80 ≤ b.toNat :=
    List.forall_mem_singleton.mpr (htail n)
  rw [String.utf8EncodeChar]
  split
  · next hone =>
    refine ⟨_, _, rfl, Or.inl ?_, List.forall_mem_nil _⟩
    rw [UInt8.toNat_ofNat']
    omega
  · split
    · refine ⟨_, _, rfl, Or.inr ?_, hlast _⟩
      rw [UInt8.toNat_ofNat']
      omega
    · split
      · refine ⟨_, _, rfl, Or.inr ?_, List.forall_mem_cons.mpr ⟨htail _, hlast _⟩⟩
        rw [UInt8.toNat_ofNat']
        omega
      · refine ⟨_, _, rfl, Or.inr ?_,
          List.forall_mem_cons.mpr ⟨htail _, List.forall_mem_cons.mpr ⟨htail _, hlast _⟩⟩⟩
        rw [UInt8.toNat_ofNat']
        omega

theorem zero_mem_encodeChar {c : Char} (h : 0 ∈ String.utf8EncodeChar c) : c = '\x00' := by
  obtain ⟨lead, tails, hc, hlead, htails⟩ := exists_lead c
  rw [hc, List.mem_cons] at h
  rcases h with rfl | htail
  · rcases hlead with ⟨hvalue, _⟩ | hlarge
    · have hzero : c.val.toNat = 0 := hvalue.symm
      rw [← Char.ofNat_toNat c, ← Char.toNat_val, hzero]
    · exact absurd hlarge (by decide)
  · exact absurd (htails 0 htail) (by decide)

theorem encodeChar_ne_nil (c : Char) : String.utf8EncodeChar c ≠ [] := by
  obtain ⟨lead, tails, hc, -, -⟩ := exists_lead c
  rw [hc]
  exact List.cons_ne_nil _ _

end Encoding

section Leads

variable {owed value : Nat} {low high b : UInt8} {part : Bytes}

/-- However the bytes go on within the bounds, they become the encoding of the character that the
reader will give. -/
def Leads : Nat → UInt8 → UInt8 → Nat → Bytes → Prop
  | 0, low, high, value, part => ∀ b, low ≤ b → b ≤ high →
    part ++ [b] = String.utf8EncodeChar (Char.ofNat (64 * value + (b.toNat - 0x80)))
  | owed + 1, low, high, value, part => ∀ b, low ≤ b → b ≤ high →
    Leads owed 0x80 0xBF (64 * value + (b.toNat - 0x80)) (part ++ [b])

/-- Every beginning that the reader keeps in mind goes on. -/
theorem Leads.exists_more (h : Leads owed low high value part) (hle : low ≤ high) :
    ∃ b, Begins (part ++ [b]) := by
  induction owed generalizing low high value part with
  | zero =>
    have hwhole := h low (UInt8.le_refl low) hle
    exact ⟨low, _, [], (List.append_nil _).trans hwhole⟩
  | succ owed ih =>
    have hnext := h low (UInt8.le_refl low) hle
    obtain ⟨b, c, hc⟩ := ih hnext (by decide)
    exact ⟨low, c, (List.prefix_append _ _).trans hc⟩

theorem leads_two (hlead : 0xC2 ≤ b.toNat ∧ b.toNat ≤ 0xDF) :
    Leads 0 0x80 0xBF (b.toNat - 0xC0) [b] := by
  intro second hlow hhigh
  exact (encodeChar_two hlead ⟨hlow, hhigh⟩ rfl).symm

/-- The bounds keep out what has a shorter form, and the surrogates. -/
theorem leads_three (hlead : 0xE0 ≤ b.toNat ∧ b.toNat ≤ 0xEF) (hlow : 0x80 ≤ low)
    (hhigh : high ≤ 0xBF) (hlong : b.toNat - 0xE0 = 0 → 0xA0 ≤ low)
    (hvalid : b.toNat - 0xE0 = 13 → high ≤ 0x9F) : Leads 1 low high (b.toNat - 0xE0) [b] := by
  intro second hsecond hsecond' third hthird hthird'
  have htail : IsTail second := ⟨UInt8.le_trans hlow hsecond, UInt8.le_trans hsecond' hhigh⟩
  have htail' : IsTail third := ⟨hthird, hthird'⟩
  have hbits : third.toNat - 0x80 < 64 :=
    Nat.sub_lt_right_of_lt_add hthird (Nat.lt_succ_of_le hthird')
  have hupper : second.toNat ≤ 0xBF := htail.2
  have hnarrow : b.toNat - 0xE0 = 0 → 0xA0 ≤ second.toNat :=
    fun h => UInt8.le_trans (hlong h) hsecond
  have hnarrow' : b.toNat - 0xE0 = 13 → second.toNat ≤ 0x9F :=
    fun h => UInt8.le_trans hsecond' (hvalid h)
  symm
  apply encodeChar_three hlead htail htail' rfl
  · omega
  · omega

/-- The bounds keep out what has a shorter form, and what lies beyond the last code point. -/
theorem leads_four (hlead : 0xF0 ≤ b.toNat ∧ b.toNat ≤ 0xF4) (hlow : 0x80 ≤ low)
    (hhigh : high ≤ 0xBF) (hlong : b.toNat - 0xF0 = 0 → 0x90 ≤ low)
    (hvalid : b.toNat - 0xF0 = 4 → high ≤ 0x8F) : Leads 2 low high (b.toNat - 0xF0) [b] := by
  intro second hsecond hsecond' third hthird hthird' fourth hfourth hfourth'
  have htail : IsTail second := ⟨UInt8.le_trans hlow hsecond, UInt8.le_trans hsecond' hhigh⟩
  have htail' : IsTail third := ⟨hthird, hthird'⟩
  have htail'' : IsTail fourth := ⟨hfourth, hfourth'⟩
  have hbits : third.toNat - 0x80 < 64 :=
    Nat.sub_lt_right_of_lt_add hthird (Nat.lt_succ_of_le hthird')
  have hbits' : fourth.toNat - 0x80 < 64 :=
    Nat.sub_lt_right_of_lt_add hfourth (Nat.lt_succ_of_le hfourth')
  have hupper : second.toNat ≤ 0xBF := htail.2
  have hnarrow : b.toNat - 0xF0 = 0 → 0x90 ≤ second.toNat :=
    fun h => UInt8.le_trans (hlong h) hsecond
  have hnarrow' : b.toNat - 0xF0 = 4 → second.toNat ≤ 0x8F :=
    fun h => UInt8.le_trans hsecond' (hvalid h)
  symm
  apply encodeChar_four hlead htail htail' htail'' rfl
  · omega
  · omega

/-- What the reader does with a byte that may begin a character. -/
inductive First (b : UInt8) : Prop where
  | whole (hfirst : first b = (.start, [Char.ofNat b.toNat]))
      (hb : [b] = String.utf8EncodeChar (Char.ofNat b.toNat))
  | stray (hfirst : first b = (.start, [replacement]))
  | lead {owed value : Nat} {low high : UInt8}
      (hfirst : first b = (.pending owed low high value, []))
      (hlow : 0x80 ≤ low) (hle : low ≤ high) (hhigh : high ≤ 0xBF)
      (hleads : Leads owed low high value [b])

/-- Of three bytes and more, the second has a bound that depends on the lead. -/
theorem First.narrowed {last : Nat}
    (hfirst : first b = (.pending owed (if value = 0 then low else 0x80)
      (if value = last then high else 0xBF) value, []))
    (hlast : last ≠ 0) (hlow : 0x80 ≤ low ∧ low ≤ 0xBF) (hhigh : 0x80 ≤ high ∧ high ≤ 0xBF)
    (hleads : ∀ lower upper, 0x80 ≤ lower → upper ≤ 0xBF → (value = 0 → low ≤ lower) →
      (value = last → upper ≤ high) → Leads owed lower upper value [b]) :
    First b := by
  by_cases hzero : value = 0
  · have hother : value ≠ last := fun h => hlast (h.symm.trans hzero)
    rw [if_pos hzero, if_neg hother] at hfirst
    apply First.lead hfirst hlow.1 hlow.2 (UInt8.le_refl _)
    exact hleads _ _ hlow.1 (UInt8.le_refl _) (fun _ => UInt8.le_refl _) (absurd · hother)
  · rw [if_neg hzero] at hfirst
    by_cases hvalue : value = last
    · rw [if_pos hvalue] at hfirst
      apply First.lead hfirst (UInt8.le_refl _) hhigh.1 hhigh.2
      exact hleads _ _ (UInt8.le_refl _) hhigh.2 (absurd · hzero) (fun _ => UInt8.le_refl _)
    · rw [if_neg hvalue] at hfirst
      apply First.lead hfirst (UInt8.le_refl _) (by decide) (UInt8.le_refl _)
      exact hleads _ _ (UInt8.le_refl _) (UInt8.le_refl _) (absurd · hzero) (absurd · hvalue)

/-- The bytes that begin no character are those between the tails and the leads, the leads of
overlong forms of two, and those behind the leads of four. -/
theorem first_stray (hsmall : 0x80 ≤ b.toNat) (h : b.toNat < 0xC2 ∨ 0xF4 < b.toNat) :
    first b = (.start, [replacement]) := by
  have habove (limit : UInt8) (hlimit : limit.toNat < b.toNat) : ¬ b ≤ limit ∧ b ≠ limit := by
    constructor
    · exact UInt8.not_le.mpr hlimit
    · rintro rfl
      exact Nat.lt_irrefl _ hlimit
  rw [first, if_neg (habove 0x7F hsmall).1]
  rcases h with hearly | hlate
  · exact if_pos hearly
  · have hpast (limit : UInt8) (hlimit : limit.toNat ≤ 0xF4) : ¬ b ≤ limit ∧ b ≠ limit :=
      habove limit (Nat.lt_of_le_of_lt hlimit hlate)
    have hlead : ¬ b < 0xC2 := fun h => (hpast 0xC2 (by decide)).1 (UInt8.le_of_lt h)
    rw [if_neg hlead, if_neg (hpast 0xDF (by decide)).1, if_neg (hpast 0xE0 (by decide)).2,
      if_neg (hpast 0xED (by decide)).2, if_neg (hpast 0xEF (by decide)).1,
      if_neg (hpast 0xF0 (by decide)).2, if_neg (hpast 0xF3 (by decide)).1,
      if_neg (hpast 0xF4 (by decide)).2]

theorem first_cases (b : UInt8) : First b := by
  have hb := b.toNat_lt
  by_cases hone : b.toNat < 0x80
  · have hfirst := first_one hone
    rw [UInt8.ofNat_toNat] at hfirst
    exact .whole hfirst (encodeChar_one (Nat.le_of_lt_succ hone)).symm
  by_cases hstray : b.toNat < 0xC2 ∨ 0xF4 < b.toNat
  · exact .stray (first_stray (Nat.le_of_not_lt hone) hstray)
  by_cases htwo : b.toNat ≤ 0xDF
  · have hbits : UInt8.ofNat (b.toNat - 0xC0 + 0xC0) = b := ofNat_eq (by omega)
    have hfirst : first (UInt8.ofNat (b.toNat - 0xC0 + 0xC0)) = _ :=
      first_two (by omega) (by omega)
    rw [hbits] at hfirst
    exact .lead hfirst (by decide) (by decide) (by decide) (leads_two (by omega))
  by_cases hthree : b.toNat ≤ 0xEF
  · have hbits : UInt8.ofNat (b.toNat - 0xE0 + 0xE0) = b := ofNat_eq (by omega)
    have hfirst : first (UInt8.ofNat (b.toNat - 0xE0 + 0xE0)) = _ := first_three (by omega)
    rw [hbits] at hfirst
    apply First.narrowed hfirst (by decide) (by decide) (by decide)
    intro lower upper hlower hupper
    exact leads_three (by omega) hlower hupper
  · have hbits : UInt8.ofNat (b.toNat - 0xF0 + 0xF0) = b := ofNat_eq (by omega)
    have hfirst : first (UInt8.ofNat (b.toNat - 0xF0 + 0xF0)) = _ := first_four (by omega)
    rw [hbits] at hfirst
    apply First.narrowed hfirst (by decide) (by decide) (by decide)
    intro lower upper hlower hupper
    exact leads_four (by omega) hlower hupper

end Leads

end ScriptHost.Utf8
