import Mathlib.Data.List.Forall2
import ScriptHost.Proofs.DigestText

/-! The order of digests. It is the order of their texts and of the numbers that their bytes spell,
and to sort texts gives the same list in whatever order and spelling they come. -/

namespace ScriptHost

section Places

variable {m n u v base : Nat}

theorem add_lt_add_of_place (hu : u < base) (hmn : m < n) : base * m + u < base * n + v :=
  calc base * m + u < base * m + base := Nat.add_lt_add_left hu _
    _ = base * (m + 1) := (Nat.mul_succ base m).symm
    _ ≤ base * n := Nat.mul_le_mul_left base hmn
    _ ≤ base * n + v := Nat.le_add_right _ v

/-- Numbers of two places compare by the higher place, and by the lower one only if that is the
same. -/
theorem compare_places (hu : u < base) (hv : v < base) :
    compare (base * m + u) (base * n + v) = (compare m n).then (compare u v) := by
  rcases Nat.lt_trichotomy m n with hmn | hmn | hmn
  · rw [Nat.compare_eq_lt.mpr hmn, Nat.compare_eq_lt.mpr (add_lt_add_of_place hu hmn)]
    rfl
  · subst hmn
    rw [Nat.compare_eq_eq.mpr rfl, Ordering.eq_then]
    simp only [Nat.compare_eq_ite_lt, Nat.add_lt_add_iff_left]
  · rw [Nat.compare_eq_gt.mpr hmn, Nat.compare_eq_gt.mpr (add_lt_add_of_place hv hmn)]
    rfl

end Places

/-- Bytes of one length compare like the numbers that they spell. The numbers read before them come
first. -/
theorem Bytes.compare_foldl {first second : Bytes} (h : first.length = second.length)
    (m n : Nat) :
    compare (first.foldl (fun n b => 256 * n + b.toNat) m)
        (second.foldl (fun n b => 256 * n + b.toNat) n) =
      (compare m n).then (compare first second) := by
  induction first generalizing second m n with
  | nil =>
    obtain rfl := List.length_eq_zero_iff.mp h.symm
    exact Ordering.then_eq.symm
  | cons b first ih =>
    cases second with
    | nil => cases h
    | cons c second =>
      have hlength : first.length = second.length := Nat.succ.inj h
      have hplaces : compare (256 * m + b.toNat) (256 * n + c.toNat) =
          (compare m n).then (compare b c) := by
        rw [compare_places b.toNat_lt c.toNat_lt, UInt8.compare_eq_toNat_compare_toNat]
      rw [List.foldl_cons, List.foldl_cons, ih hlength, hplaces, List.compare_cons_cons,
        Ordering.then_assoc]

/-- Each byte more makes room for two hundred and fifty-six times as many numbers. -/
theorem Bytes.foldl_lt (bytes : Bytes) (m : Nat) :
    bytes.foldl (fun n b => 256 * n + b.toNat) m < 256 ^ bytes.length * (m + 1) := by
  induction bytes generalizing m with
  | nil => simp
  | cons b bytes ih =>
    have hbyte : 256 * m + b.toNat + 1 ≤ 256 * (m + 1) := by
      have hb : b.toNat < 256 := b.toNat_lt
      omega
    rw [List.foldl_cons, List.length_cons]
    calc bytes.foldl (fun n b => 256 * n + b.toNat) (256 * m + b.toNat)
        < 256 ^ bytes.length * (256 * m + b.toNat + 1) := ih _
      _ ≤ 256 ^ bytes.length * (256 * (m + 1)) := Nat.mul_le_mul_left _ hbyte
      _ = 256 ^ (bytes.length + 1) * (m + 1) := by rw [Nat.pow_succ, Nat.mul_assoc]

theorem Bytes.compare_bigEndian {first second : Bytes} (h : first.length = second.length) :
    compare (bigEndian first) (bigEndian second) = compare first second :=
  compare_foldl h 0 0

namespace Hex

theorem compare_digitChar {m n : Nat} (hm : m < 16) (hn : n < 16) :
    compare (Nat.digitChar m) (Nat.digitChar n) = compare m n := by
  have hall : ∀ m < 16, ∀ n < 16, compare (Nat.digitChar m) (Nat.digitChar n) = compare m n := by
    decide +kernel
  exact hall m hm n hn

/-- A byte compares like its two digits. -/
theorem compare_halves (b c : UInt8) :
    compare b c =
      (compare (Nat.digitChar (b.toNat / 16)) (Nat.digitChar (c.toNat / 16))).then
        (compare (Nat.digitChar (b.toNat % 16)) (Nat.digitChar (c.toNat % 16))) := by
  obtain ⟨hbhigh, hblow⟩ := halves_lt b
  obtain ⟨hchigh, hclow⟩ := halves_lt c
  have hplaces := compare_places (m := b.toNat / 16) (n := c.toNat / 16) hblow hclow
  rw [Nat.div_add_mod, Nat.div_add_mod] at hplaces
  rw [UInt8.compare_eq_toNat_compare_toNat, hplaces, compare_digitChar hbhigh hchigh,
    compare_digitChar hblow hclow]

theorem compare_encode (first second : Bytes) :
    compare (encode first) (encode second) = compare first second := by
  induction first generalizing second with
  | nil =>
    cases second with
    | nil => rfl
    | cons c second => rw [encode_cons, List.compare_nil_cons]; rfl
  | cons b first ih =>
    cases second with
    | nil => rw [encode_cons, List.compare_cons_nil]; rfl
    | cons c second =>
      rw [encode_cons, encode_cons, List.compare_cons_cons, List.compare_cons_cons, ih,
        List.compare_cons_cons, compare_halves, Ordering.then_assoc]

end Hex

section Texts

theorem compare_chars_eq_lt_iff (first second : List Char) :
    compare first second = .lt ↔ first < second := by
  have hchar (c d : Char) : compare c d = .lt ↔ c < d := compareOfLessAndEq_eq_lt
  induction first generalizing second with
  | nil =>
    cases second with
    | nil => simp
    | cons d second => simp
  | cons c first ih =>
    cases second with
    | nil => simp
    | cons d second =>
      have hrest : compare first second = .lt ↔ first < second := ih second
      rw [List.compare_cons_cons, Ordering.then_eq_lt, hchar, Std.compare_eq_iff_eq, hrest,
        List.cons_lt_cons_iff]

/-- Texts compare by their characters. -/
theorem compare_text (first second : String) :
    compare first second = compare first.toList second.toList := by
  have hless (first second : String) :
      compare first.toList second.toList = .lt ↔ first < second := by
    rw [compare_chars_eq_lt_iff, String.lt_iff_toList_lt]
  have hdef : compare first second = compareOfLessAndEq first second := rfl
  rw [hdef, compareOfLessAndEq]
  split
  · next hlt => exact ((hless first second).mpr hlt).symm
  · next hnot =>
    split
    · next heq =>
      rw [heq]
      exact Std.ReflCmp.compare_self.symm
    · next hne =>
      have hgreater : second < first := by
        by_contra hn
        exact hne (String.lt_antisymm hnot hn)
      exact (Std.OrientedCmp.gt_iff_lt.mpr ((hless second first).mpr hgreater)).symm

theorem isLE_compare_text (first second : String) :
    (compare first second).isLE ↔ first ≤ second := by
  rw [← String.not_lt, Ordering.isLE_iff_ne_gt, compare_text, not_iff_not,
    Std.OrientedCmp.gt_iff_lt, compare_chars_eq_lt_iff, String.lt_iff_toList_lt]

end Texts

namespace Digest

theorem compare_bytes (a b : Digest) : compare a b = compare a.bytes b.bytes := rfl

instance : Std.TransOrd Digest where
  eq_swap := by
    intro a b
    rw [compare_bytes, compare_bytes]
    exact Std.OrientedCmp.eq_swap
  isLE_trans := by
    intro a b c hab hbc
    rw [compare_bytes] at hab hbc ⊢
    exact Std.TransCmp.isLE_trans hab hbc

theorem compare_toNat (a b : Digest) : compare a b = compare a.toNat b.toNat := by
  have hlength : a.bytes.length = b.bytes.length := a.length_bytes.trans b.length_bytes.symm
  rw [compare_bytes, toNat, toNat, Bytes.compare_bigEndian hlength]

theorem toNat_lt (digest : Digest) : digest.toNat < 2 ^ 256 := by
  have hlt := Bytes.foldl_lt digest.bytes 0
  rw [digest.length_bytes] at hlt
  exact hlt

theorem compare_toText (a b : Digest) : compare a b = compare a.toText b.toText := by
  rw [compare_text, toList_toText, toList_toText, compare_bytes, ← Hex.compare_encode]
  simp only [String.reduceToList, List.cons_append, List.nil_append, List.compare_cons_cons,
    Std.ReflCmp.compare_self, Ordering.eq_then]

theorem compare_eq_eq_iff (a b : Digest) : compare a b = .eq ↔ a = b := by
  rw [compare_toText, Std.compare_eq_iff_eq, toText_inj]

theorem sort_perm (digests : List Digest) : (sort digests).Perm digests :=
  List.mergeSort_perm digests _

theorem pairwise_sort (digests : List Digest) :
    (sort digests).Pairwise fun a b => (compare a b).isLE := by
  apply List.pairwise_mergeSort
  · intro a b c hab hbc
    exact Std.TransCmp.isLE_trans hab hbc
  · intro a b
    have hswap : compare b a = (compare a b).swap := Std.OrientedCmp.eq_swap
    rw [hswap]
    cases compare a b <;> rfl

/-- The sorted texts do not decrease. -/
theorem pairwise_toText_sort (digests : List Digest) :
    ((sort digests).map toText).Pairwise (· ≤ ·) := by
  rw [List.pairwise_map]
  apply (pairwise_sort digests).imp
  intro a b hab
  rwa [compare_toText, isLE_compare_text] at hab

theorem sort_congr {digests others : List Digest} (h : digests.Perm others) :
    sort digests = sort others := by
  have hperm : (sort digests).Perm (sort others) :=
    (sort_perm digests).trans (h.trans (sort_perm others).symm)
  apply hperm.eq_of_pairwise _ (pairwise_sort digests) (pairwise_sort others)
  intro a b _ _ hab hba
  rw [← compare_eq_eq_iff]
  exact Std.OrientedCmp.isLE_antisymm hab hba

/-- The texts have the same digits, but for the case and for a mark in front of them. -/
def Respells (text other : String) : Prop :=
  (digitsOf text.toList).map Char.toLower = (digitsOf other.toList).map Char.toLower

theorem Respells.parse_eq {text other : String} {digest : Digest} (h : Respells text other)
    (hparse : parse text = .ok digest) : parse other = .ok digest := by
  rw [parse_eq_ok_iff_lower] at hparse ⊢
  rw [← hparse, h]

/-- The digests of those texts that are read. -/
def readable (texts : List String) : List Digest :=
  texts.filterMap fun text => (parse text).toOption

variable {texts reordered others before after : List String} {digests : List Digest}

theorem readable_cons {text : String} {digest : Digest} (h : parse text = .ok digest)
    (texts : List String) : readable (text :: texts) = digest :: readable texts := by
  simp only [readable, List.filterMap_cons, h, Except.toOption]

theorem readable_eq (h : List.Forall₂ (fun text digest => parse text = .ok digest) texts digests) :
    readable texts = digests := by
  induction h with
  | nil => rfl
  | cons hparse _ ih => rw [readable_cons hparse, ih]

theorem mapM_parse (h : ∀ text ∈ texts, ∃ digest, parse text = .ok digest) :
    texts.mapM parse = .ok (readable texts) := by
  induction texts with
  | nil => rfl
  | cons text texts ih =>
    obtain ⟨⟨digest, hparse⟩, hrest⟩ := List.forall_mem_cons.mp h
    rw [List.mapM_cons, hparse, ih hrest, readable_cons hparse]
    rfl

theorem sortTexts_of_ok (h : ∀ text ∈ texts, ∃ digest, parse text = .ok digest) :
    sortTexts texts = .ok (sort (readable texts)) := by
  rw [sortTexts, mapM_parse h]
  rfl

theorem mapM_parse_of_error {text : String} {error : DigestError}
    (h : ∀ earlier ∈ before, ∃ digest, parse earlier = .ok digest)
    (herror : parse text = .error error) :
    (before ++ text :: after).mapM parse = .error error := by
  induction before with
  | nil =>
    rw [List.nil_append, List.mapM_cons, herror]
    rfl
  | cons earlier before ih =>
    obtain ⟨⟨digest, hparse⟩, hrest⟩ := List.forall_mem_cons.mp h
    rw [List.cons_append, List.mapM_cons, hparse, ih hrest]
    rfl

theorem sortTexts_of_error {text : String} {error : DigestError}
    (h : ∀ earlier ∈ before, ∃ digest, parse earlier = .ok digest)
    (herror : parse text = .error error) :
    sortTexts (before ++ text :: after) = .error error := by
  rw [sortTexts, mapM_parse_of_error h herror]
  rfl

theorem exists_parse_of_forall₂
    (h : List.Forall₂ (fun text digest => parse text = .ok digest) texts digests) :
    ∀ text ∈ texts, ∃ digest, parse text = .ok digest := by
  induction h with
  | nil => exact List.forall_mem_nil _
  | cons hparse _ ih => exact List.forall_mem_cons.mpr ⟨⟨_, hparse⟩, ih⟩

/-- Texts that are spelled otherwise are read as the same digests. -/
theorem forall₂_of_respells (h : List.Forall₂ Respells reordered others)
    (hread : ∀ text ∈ reordered, ∃ digest, parse text = .ok digest) :
    List.Forall₂ (fun text digest => parse text = .ok digest) others (readable reordered) := by
  induction h with
  | nil => exact .nil
  | cons hspell _ ih =>
    obtain ⟨⟨digest, hparse⟩, hrest⟩ := List.forall_mem_cons.mp hread
    rw [readable_cons hparse]
    exact .cons (hspell.parse_eq hparse) (ih hrest)

theorem sortTexts_of_respells (hperm : reordered.Perm texts)
    (hspell : List.Forall₂ Respells reordered others)
    (hread : ∀ text ∈ texts, ∃ digest, parse text = .ok digest) :
    sortTexts others = sortTexts texts := by
  have hreordered : ∀ text ∈ reordered, ∃ digest, parse text = .ok digest := by
    intro text htext
    exact hread text (hperm.mem_iff.mp htext)
  have hothers := forall₂_of_respells hspell hreordered
  have hsame : sort (readable reordered) = sort (readable texts) :=
    sort_congr (hperm.filterMap _)
  rw [sortTexts_of_ok (exists_parse_of_forall₂ hothers), readable_eq hothers, hsame,
    sortTexts_of_ok hread]

/-- Digests are ordered like their texts, and like the numbers that their bytes spell, the most
significant first. Texts that are all read are sorted to a list of the same digests whose texts do
not decrease, and in whatever order and spelling they come, the list is the same. Where some are not
read, the first of them is refused. -/
theorem sorted_like_texts :
    (∀ a b : Digest, compare a b = compare a.toText b.toText ∧
      compare a b = compare a.toNat b.toNat ∧ a.toNat < 2 ^ 256 ∧ (compare a b = .eq ↔ a = b)) ∧
    (∀ (texts : List String) (digests : List Digest),
      List.Forall₂ (fun text digest => parse text = .ok digest) texts digests →
      ∃ sorted, sortTexts texts = .ok sorted ∧ (sorted.map toText).Perm (digests.map toText) ∧
        (sorted.map toText).Pairwise (· ≤ ·) ∧
        ∀ reordered others, reordered.Perm texts → List.Forall₂ Respells reordered others →
          sortTexts others = .ok sorted) ∧
    (∀ (before : List String) (text : String) (after : List String) (error : DigestError),
      (∀ earlier ∈ before, ∃ digest, parse earlier = .ok digest) → parse text = .error error →
        sortTexts (before ++ text :: after) = .error error) := by
  refine ⟨?_, ?_, ?_⟩
  · intro a b
    exact ⟨compare_toText a b, compare_toNat a b, a.toNat_lt, compare_eq_eq_iff a b⟩
  · intro texts digests hparsed
    have hread := exists_parse_of_forall₂ hparsed
    have hsorted := sortTexts_of_ok hread
    rw [readable_eq hparsed] at hsorted
    refine ⟨sort digests, hsorted, (sort_perm digests).map toText,
      pairwise_toText_sort digests, ?_⟩
    intro reordered others hperm hspell
    rw [sortTexts_of_respells hperm hspell hread, hsorted]
  · intro before text after error hbefore herror
    exact sortTexts_of_error hbefore herror

/-- Three texts of two digests, in two orders and in other spellings. Behind a text that is no
digest nothing is read. -/
theorem sorted_like_texts_mixed :
    let a : Digest := ⟨List.replicate 32 0xAA, rfl⟩
    let b : Digest := ⟨List.replicate 32 0xBB, rfl⟩
    let lower := String.ofList (List.replicate 64 'b')
    let upper := "0x" ++ String.ofList (List.replicate 64 'B')
    (List.Forall₂ (fun text digest => parse text = .ok digest) [upper, a.toText, lower] [b, a, b] ∧
        [a.toText, upper, lower].Perm [upper, a.toText, lower] ∧
        List.Forall₂ Respells [a.toText, upper, lower] [a.toText, lower, upper] ∧
        (∀ earlier ∈ [lower], ∃ digest, parse earlier = .ok digest) ∧
        parse "zz" = .error (.notHex "zz")) ∧
      sortTexts [a.toText, lower, upper] = sortTexts [upper, a.toText, lower] ∧
      sortTexts ([lower] ++ "zz" :: [""]) = .error (.notHex "zz") := by
  intro a b lower upper
  have ha : parse a.toText = .ok a := parse_toText a
  have hlower : parse lower = .ok b := by decide +kernel
  have hupper : parse upper = .ok b := by decide +kernel
  have hparsed : List.Forall₂ (fun text digest => parse text = .ok digest)
      [upper, a.toText, lower] [b, a, b] := .cons hupper (.cons ha (.cons hlower .nil))
  have hspell : List.Forall₂ Respells [a.toText, upper, lower] [a.toText, lower, upper] :=
    .cons rfl (.cons (by unfold Respells; decide +kernel)
      (.cons (by unfold Respells; decide +kernel) .nil))
  have hperm : [a.toText, upper, lower].Perm [upper, a.toText, lower] := .swap _ _ _
  have hbefore : ∀ earlier ∈ [lower], ∃ digest, parse earlier = .ok digest :=
    List.forall_mem_singleton.mpr ⟨b, hlower⟩
  have hbad : parse "zz" = .error (.notHex "zz") := by decide +kernel
  obtain ⟨-, hsort, hrefuse⟩ := sorted_like_texts
  obtain ⟨sorted, hsorted, -, -, hsame⟩ := hsort _ _ hparsed
  refine ⟨⟨hparsed, hperm, hspell, hbefore, hbad⟩, ?_, ?_⟩
  · rw [hsame _ _ hperm hspell, hsorted]
  · exact hrefuse [lower] "zz" [""] _ hbefore hbad

end Digest

end ScriptHost
