import ScriptHost.Proofs.CharacterBytes

/-! Damaged UTF-8. Whatever the bytes are, the reader takes them apart into whole characters and
longest damaged parts, so that damage spreads to no byte of the text around it. -/

namespace ScriptHost.Utf8

/-- The part in front of the rest is damaged: no character is there, and the part is as long as a
beginning of one can be, or a single byte. -/
structure Damaged (part rest : Bytes) : Prop where
  ne_nil : part ≠ []
  begins : Begins part ∨ part.length = 1
  no_character : ∀ c : Char, ¬ String.utf8EncodeChar c <+: part ++ rest
  longest : ∀ b, rest.head? = some b → ¬ Begins (part ++ [b])

/-- How bytes are read as text: characters as themselves, and every damaged part as one
replacement. -/
inductive Reads : Bytes → List Char → Prop where
  | nil : Reads [] []
  | character (c : Char) {rest : Bytes} {text : List Char} (h : Reads rest text) :
      Reads (String.utf8EncodeChar c ++ rest) (c :: text)
  | damaged {part rest : Bytes} {text : List Char} (hpart : Damaged part rest)
      (h : Reads rest text) : Reads (part ++ rest) (replacement :: text)

section Machine

variable {owed value : Nat} {low high b : UInt8} {part rest : Bytes} {state : State} {c d : Char}

theorem step_within (h : low ≤ b ∧ b ≤ high) :
    step (.pending (owed + 1) low high value) b =
      (.pending owed 0x80 0xBF (64 * value + (b.toNat - 0x80)), []) := by
  rw [step, if_pos h]

theorem step_within_last (h : low ≤ b ∧ b ≤ high) :
    step (.pending 0 low high value) b =
      (.start, [Char.ofNat (64 * value + (b.toNat - 0x80))]) := by
  rw [step, if_pos h]

theorem step_broken (h : ¬ (low ≤ b ∧ b ≤ high)) :
    step (.pending owed low high value) b = ((first b).1, replacement :: (first b).2) := by
  rw [step, if_neg h]

/-- The byte that breaks a character off is read afresh. -/
theorem decodeFrom_broken (h : ¬ (low ≤ b ∧ b ≤ high)) (rest : Bytes) :
    decodeFrom (.pending owed low high value) (b :: rest) =
      replacement :: decodeFrom .start (b :: rest) := by
  rw [decodeFrom_cons, step_broken h, decodeFrom_cons]
  rfl

/-- A byte for which nothing is given is kept in mind. -/
theorem step_silent (h : (step state b).2 = []) : (step state b).1 ≠ .start := by
  cases state with
  | start =>
    rw [step] at h ⊢
    cases first_cases b with
    | whole hfirst | stray hfirst =>
      rw [hfirst] at h
      cases h
    | lead hfirst =>
      rw [hfirst]
      exact State.noConfusion
  | pending owed low high value =>
    by_cases hwithin : low ≤ b ∧ b ≤ high
    · cases owed with
      | zero =>
        rw [step_within_last hwithin] at h
        cases h
      | succ owed =>
        rw [step_within hwithin]
        exact State.noConfusion
    · rw [step_broken hwithin] at h
      cases h

theorem decodeFrom_eq_nil {bytes : Bytes} (h : decodeFrom state bytes = []) :
    state = .start ∧ bytes = [] := by
  induction bytes generalizing state with
  | nil =>
    cases state with
    | start => exact ⟨rfl, rfl⟩
    | pending => cases h
  | cons b rest ih =>
    rw [decodeFrom_cons, List.append_eq_nil_iff] at h
    exact absurd (ih h.2).1 (step_silent h.1)

theorem decode_encodeChar (c : Char) : decodeFrom .start (String.utf8EncodeChar c) = [c] := by
  have hread := decodeFrom_encodeChar [] c
  rwa [List.append_nil] at hread

/-- No character's encoding begins another's. -/
theorem eq_of_encodeChar_prefix (h : String.utf8EncodeChar c <+: String.utf8EncodeChar d) :
    c = d := by
  obtain ⟨rest, hrest⟩ := h
  have hread := decodeFrom_encodeChar rest c
  rw [hrest, decode_encodeChar] at hread
  exact (List.cons.inj hread).1.symm

/-- The reader stands in a state behind the bytes, and has given nothing for them. -/
inductive State.Reached : Bytes → State → Prop where
  | start : Reached [] .start
  | pending {part : Bytes} {owed value : Nat} {low high : UInt8}
      (hread : ∀ rest, decodeFrom .start (part ++ rest) =
        decodeFrom (.pending owed low high value) rest)
      (hpart : part ≠ []) (hlow : 0x80 ≤ low) (hle : low ≤ high) (hhigh : high ≤ 0xBF)
      (hleads : Leads owed low high value part) :
      Reached part (.pending owed low high value)

/-- What the reader does with the byte behind the bytes that it has given nothing for. -/
inductive State.Takes (part : Bytes) (state : State) (b : UInt8) : Prop where
  | character (c : Char) (hstep : step state b = (.start, [c]))
      (hc : part ++ [b] = String.utf8EncodeChar c)
  | further {next : State} (hstep : step state b = (next, [])) (hnext : Reached (part ++ [b]) next)
  | stray (hpart : part = []) (hstep : step state b = (.start, [replacement]))
      (hb : ¬ Begins [b])
  | broken (hpart : part ≠ []) (hstep : step state b = ((first b).1, replacement :: (first b).2))
      (hb : ¬ Begins (part ++ [b]))

theorem not_begins_stray (h : first b = (.start, [replacement])) : ¬ Begins [b] := by
  rintro ⟨c, rest, hc⟩
  have hread : replacement :: decodeFrom .start rest = [c] := by
    rw [← decode_encodeChar, ← hc, List.singleton_append, decodeFrom_cons, step, h]
    rfl
  obtain ⟨hreplacement, hrest⟩ := List.cons.inj hread
  rw [(decodeFrom_eq_nil hrest).2, ← hreplacement] at hc
  have hlength := congrArg List.length hc
  cases hlength

namespace State.Reached

theorem lead (hfirst : first b = (.pending owed low high value, [])) (hlow : 0x80 ≤ low)
    (hle : low ≤ high) (hhigh : high ≤ 0xBF) (hleads : Leads owed low high value [b]) :
    Reached [b] (.pending owed low high value) := by
  refine .pending ?_ (List.cons_ne_nil _ _) hlow hle hhigh hleads
  intro rest
  rw [List.singleton_append, decodeFrom_cons, step, hfirst, List.nil_append]

theorem takes_first (b : UInt8) : Takes [] .start b := by
  cases first_cases b with
  | whole hfirst hb => exact .character _ hfirst hb
  | stray hfirst => exact .stray rfl hfirst (not_begins_stray hfirst)
  | lead hfirst hlow hle hhigh hleads =>
    exact .further hfirst (.lead hfirst hlow hle hhigh hleads)

theorem takes (h : Reached part state) (b : UInt8) : Takes part state b := by
  cases h with
  | start => exact takes_first b
  | @pending part owed value low high hread hpart hlow hle hhigh hleads =>
    by_cases hwithin : low ≤ b ∧ b ≤ high
    · cases owed with
      | zero => exact .character _ (step_within_last hwithin) (hleads b hwithin.1 hwithin.2)
      | succ owed =>
        refine .further (step_within hwithin)
          (.pending ?_ ?_ (by decide) (by decide) (by decide) (hleads b hwithin.1 hwithin.2))
        · intro rest
          rw [List.append_assoc, List.singleton_append, hread, decodeFrom_cons,
            step_within hwithin, List.nil_append]
        · exact List.append_ne_nil_of_right_ne_nil _ (List.cons_ne_nil _ _)
    · apply Takes.broken hpart (step_broken hwithin)
      rintro ⟨c, rest, hc⟩
      have hone := decode_encodeChar c
      rw [← hc, List.append_assoc, hread, List.singleton_append, decodeFrom_broken hwithin] at hone
      have hnothing := decodeFrom_eq_nil (List.cons.inj hone).2
      cases hnothing.2

theorem exists_first (b : UInt8) : ∃ left, Reached left (first b).1 := by
  cases first_cases b with
  | whole hfirst | stray hfirst =>
    rw [hfirst]
    exact ⟨[], .start⟩
  | lead hfirst hlow hle hhigh hleads =>
    rw [hfirst]
    exact ⟨_, .lead hfirst hlow hle hhigh hleads⟩

/-- Whatever is read, the reader stands behind bytes that it has given nothing for. -/
theorem exists_next (h : Reached part state) (b : UInt8) :
    ∃ left, Reached left (step state b).1 := by
  cases h.takes b with
  | character c hstep | stray _ hstep =>
    rw [hstep]
    exact ⟨[], .start⟩
  | further hstep hnext =>
    rw [hstep]
    exact ⟨_, hnext⟩
  | broken _ hstep =>
    rw [hstep]
    exact exists_first b

/-- What the reader keeps in mind is a damaged part unless the next byte belongs to it. -/
theorem damaged (h : Reached part state) (hpart : part ≠ [])
    (hrest : ∀ b, rest.head? = some b → ¬ Begins (part ++ [b])) : Damaged part rest := by
  cases h with
  | start => exact absurd rfl hpart
  | pending hread hpart hlow hle hhigh hleads =>
    obtain ⟨more, d, hd⟩ := hleads.exists_more hle
    have hbegins : part <+: String.utf8EncodeChar d := (List.prefix_append _ _).trans hd
    have hinside (c : Char) : ¬ String.utf8EncodeChar c <+: part := by
      intro hc
      obtain rfl := eq_of_encodeChar_prefix (hc.trans hbegins)
      have hlength := (hd.trans hc).length_le
      rw [List.length_append] at hlength
      exact Nat.not_succ_le_self _ hlength
    refine ⟨hpart, Or.inl ⟨d, hbegins⟩, ?_, hrest⟩
    intro c hc
    rcases List.prefix_or_prefix_of_prefix hc (List.prefix_append part rest) with hshort | hlong
    · exact hinside c hshort
    · obtain ⟨left, hleft⟩ := hlong
      cases left with
      | nil =>
        rw [List.append_nil] at hleft
        exact hinside c (hleft ▸ List.prefix_rfl)
      | cons b left =>
        rw [← hleft, List.prefix_append_right_inj] at hc
        obtain ⟨behind, rfl⟩ := hc
        apply hrest b rfl
        refine ⟨c, left, ?_⟩
        rw [← hleft, List.append_assoc, List.singleton_append]

end State.Reached

theorem Begins.of_append (h : Begins (part ++ rest)) : Begins part := by
  obtain ⟨c, hc⟩ := h
  exact ⟨c, (List.prefix_append _ _).trans hc⟩

theorem Damaged.stray (hb : ¬ Begins [b]) (rest : Bytes) : Damaged [b] rest where
  ne_nil := List.cons_ne_nil _ _
  begins := Or.inr rfl
  no_character c hc := by
    obtain ⟨lead, tails, hlead, -, -⟩ := exists_lead c
    rw [hlead, List.singleton_append, List.cons_prefix_cons] at hc
    apply hb
    rw [← hc.1]
    exact ⟨c, tails, hlead.symm⟩
  longest more _ hmore := hb hmore.of_append

/-- The reader goes on as the grammar does, if it does so behind the next byte. -/
theorem State.Reached.reads_cons (h : Reached part state)
    (hnext : ∀ {left next}, Reached left next → Reads (left ++ rest) (decodeFrom next rest))
    (hagain : part ≠ [] → Reads (b :: rest) (decodeFrom .start (b :: rest))) :
    Reads (part ++ b :: rest) (decodeFrom state (b :: rest)) := by
  have hbytes : part ++ b :: rest = part ++ [b] ++ rest := List.append_cons part b rest
  rw [decodeFrom_cons]
  cases h.takes b with
  | character c hstep hc =>
    rw [hstep, hbytes, hc]
    exact .character c (hnext .start)
  | further hstep hleft =>
    rw [hstep, hbytes]
    exact hnext hleft
  | stray hpart hstep hb =>
    have hrest := Reads.damaged (.stray hb rest) (hnext .start)
    rw [hstep, hpart]
    exact hrest
  | broken hpart hstep hb =>
    have hrest := hagain hpart
    rw [decodeFrom_cons] at hrest
    rw [hstep]
    apply Reads.damaged (h.damaged hpart _) hrest
    rintro _ ⟨⟩
    exact hb

theorem State.Reached.reads (h : Reached part state) (bytes : Bytes) :
    Reads (part ++ bytes) (decodeFrom state bytes) := by
  -- The induction is on what is still to be read, and the bytes kept in mind go with the state.
  induction bytes generalizing part state with
  | nil =>
    have hdamaged (hpart : part ≠ []) : Damaged part [] := h.damaged hpart nofun
    cases h with
    | start => exact .nil
    | pending _ hpart => exact .damaged (hdamaged hpart) .nil
  | cons b rest ih =>
    have hstart : Reads (b :: rest) (decodeFrom .start (b :: rest)) :=
      State.Reached.start.reads_cons ih (absurd rfl)
    exact h.reads_cons ih fun _ => hstart

end Machine

section Grammar

variable {part part' rest rest' bytes : Bytes} {text text' : List Char}

/-- What is damaged at one place is the same in every reading. -/
theorem Damaged.length_le (h : Damaged part rest) (h' : Damaged part' rest')
    (hbytes : part ++ rest = part' ++ rest') : part'.length ≤ part.length := by
  by_contra hlonger
  have hprefix : part <+: part' := by
    apply List.prefix_of_prefix_length_le (List.prefix_append part rest)
    · rw [hbytes]
      exact List.prefix_append part' rest'
    · omega
  obtain ⟨left, rfl⟩ := hprefix
  rw [List.append_assoc, List.append_cancel_left_eq] at hbytes
  cases left with
  | nil => simp at hlonger
  | cons b left =>
    have hnext : rest.head? = some b := by
      rw [hbytes]
      rfl
    have hbegins : Begins (part ++ b :: left) := by
      apply h'.begins.resolve_right
      have hlength := List.length_pos_iff.mpr h.ne_nil
      rw [List.length_append, List.length_cons]
      omega
    rw [List.append_cons] at hbegins
    exact h.longest b hnext hbegins.of_append

theorem Damaged.unique (h : Damaged part rest) (h' : Damaged part' rest')
    (hbytes : part ++ rest = part' ++ rest') : part = part' ∧ rest = rest' := by
  apply List.append_inj hbytes
  exact Nat.le_antisymm (h'.length_le h hbytes.symm) (h.length_le h' hbytes)

theorem Damaged.ne_character (h : Damaged part rest) (c : Char) :
    part ++ rest ≠ String.utf8EncodeChar c ++ rest' := by
  intro hbytes
  apply h.no_character c
  rw [hbytes]
  exact List.prefix_append _ _

theorem Reads.unique (h : Reads bytes text) (h' : Reads bytes text') : text = text' := by
  -- The bytes of two readings are put together in two ways, so that only an equation ties them.
  generalize hbytes : bytes = bytes' at h'
  induction h generalizing bytes' text' with
  | nil =>
    cases h' with
    | nil => rfl
    | character c => exact absurd (List.nil_eq_append_iff.mp hbytes).1 (encodeChar_ne_nil c)
    | damaged hpart => exact absurd (List.nil_eq_append_iff.mp hbytes).1 hpart.ne_nil
  | character c h ih =>
    cases h' with
    | nil => exact absurd (List.append_eq_nil_iff.mp hbytes).1 (encodeChar_ne_nil c)
    | character d h' =>
      have hread := congrArg (decodeFrom .start) hbytes
      rw [decodeFrom_encodeChar, decodeFrom_encodeChar] at hread
      obtain ⟨rfl, -⟩ := List.cons.inj hread
      rw [ih _ (List.append_cancel_left hbytes) h']
    | damaged hpart => exact absurd hbytes.symm (hpart.ne_character c)
  | damaged hpart h ih =>
    cases h' with
    | nil => exact absurd (List.append_eq_nil_iff.mp hbytes).1 hpart.ne_nil
    | character c => exact absurd hbytes (hpart.ne_character c)
    | damaged hpart' h' => rw [ih _ (hpart.unique hpart' hbytes).2 h']

/-- The reader reads any bytes as the grammar says, which leaves no choice. -/
theorem reads_iff : Reads bytes text ↔ decodeLossy bytes = text := by
  have hreads : Reads bytes (decodeLossy bytes) := State.Reached.start.reads bytes
  constructor
  · exact hreads.unique
  · rintro rfl
    exact hreads

theorem Reads.zero_notMem (h : Reads bytes text) (hzero : 0 ∉ bytes) : '\x00' ∉ text := by
  induction h with
  | nil => exact List.not_mem_nil
  | character c h ih =>
    rw [List.mem_append, not_or] at hzero
    rw [List.mem_cons, not_or]
    refine ⟨?_, ih hzero.2⟩
    rintro rfl
    exact hzero.1 (by decide)
  | damaged hpart h ih =>
    rw [List.mem_append, not_or] at hzero
    rw [List.mem_cons, not_or]
    exact ⟨by decide, ih hzero.2⟩

theorem zero_notMem_decodeLossy (h : 0 ∉ bytes) : '\x00' ∉ decodeLossy bytes := by
  have hreads : Reads bytes (decodeLossy bytes) := reads_iff.mpr rfl
  exact hreads.zero_notMem h

end Grammar

section Beside

variable {part : Bytes} {state : State} {text : List Char}

/-- No byte that a reader waits for leads a character. -/
theorem State.Reached.decodeFrom_encode (h : state.Reached part) (htext : text ≠ [])
    (after : Bytes) :
    decodeFrom state (encode text ++ after) =
      decodeFrom state [] ++ decodeFrom .start (encode text ++ after) := by
  obtain ⟨c, rest, rfl⟩ := List.exists_cons_of_ne_nil htext
  obtain ⟨lead, tails, hc, hlead, -⟩ := exists_lead c
  have hbytes : encode (c :: rest) ++ after = lead :: (tails ++ (encode rest ++ after)) := by
    rw [encode, List.flatMap_cons, hc, List.append_assoc]
    rfl
  cases h with
  | start => rfl
  | pending hread hpart hlow hle hhigh hleads =>
    rw [hbytes]
    apply decodeFrom_broken
    rintro ⟨habove, hbelow⟩
    have habove : 0x80 ≤ lead.toNat := UInt8.le_trans hlow habove
    have hbelow : lead.toNat ≤ 0xBF := UInt8.le_trans hbelow hhigh
    omega

/-- Wherever the reader stands before a text, it stands between characters behind it. -/
theorem decodeFrom_append_encode (h : state.Reached part) (before : Bytes) (htext : text ≠ [])
    (after : Bytes) :
    decodeFrom state (before ++ encode text ++ after) =
      decodeFrom state before ++ text ++ decodeFrom .start after := by
  -- The state is not fixed, since every byte before the text leaves another one.
  induction before generalizing part state with
  | nil =>
    rw [List.nil_append, h.decodeFrom_encode htext after, Utf8.decodeFrom_encode,
      List.append_assoc]
  | cons b before ih =>
    obtain ⟨left, hnext⟩ := h.exists_next b
    have hrest := ih hnext
    calc decodeFrom state (b :: before ++ encode text ++ after)
        = (step state b).2 ++ decodeFrom (step state b).1 (before ++ encode text ++ after) :=
          decodeFrom_cons _ _ _
      _ = (step state b).2 ++ decodeFrom (step state b).1 before ++ text ++
            decodeFrom .start after := by
          rw [hrest]
          simp only [List.append_assoc]
      _ = decodeFrom state (b :: before) ++ text ++ decodeFrom .start after := by
          rw [decodeFrom_cons]

/-- Damaged bytes swallow nothing of the text beside them. -/
theorem decodeLossy_append_encode (before : Bytes) (htext : text ≠ []) (after : Bytes) :
    decodeLossy (before ++ encode text ++ after) =
      decodeLossy before ++ text ++ decodeLossy after :=
  decodeFrom_append_encode .start before htext after

end Beside

end ScriptHost.Utf8
