/-
Reading what has been written.

The tokens of a plain reference spell it, so a reader that starts in front of them takes just these
and gives the reference back.  So a text that a plain reference is written as is read as that
reference, and no two of them have one text.
-/
import ConversionClosure.Proofs.Spelling

namespace ConversionClosure

open Token

namespace Reference

variable {line : Nat} {r : Reference} {args : List Reference}

/-! ### The tokens of a plain reference spell it -/

@[simp] theorem commaTokens_singleton (run : List Token) : commaTokens line [run] = run := by
  simp [commaTokens]

@[simp] theorem commaTokens_cons_cons (run next : List Token) (runs : List (List Token)) :
    commaTokens line (run :: next :: runs) =
      run ++ mark line "," :: commaTokens line (next :: runs) := by
  simp [commaTokens]

theorem spellsAll_commaTokens (h : ∀ a ∈ args, Spells (a.tokens line) a) :
    SpellsAll (commaTokens line (args.map (tokens line))) args args.isEmpty := by
  induction args with
  | nil => exact .nil
  | cons a args ih =>
      have ha : Spells (a.tokens line) a := h a (by simp)
      cases args with
      | nil =>
          rw [List.map_cons, List.map_nil, commaTokens_singleton]
          exact .last ha
      | cons b args =>
          rw [List.map_cons, List.map_cons, commaTokens_cons_cons]
          exact .cons ha (ih fun c hc => h c (by simp [hc]))

theorem spellsAll_elementTokens (h : ∀ a ∈ args, Spells (a.tokens line) a) :
    ∃ trailing, SpellsAll (elementTokens line (args.map (tokens line))) args trailing ∧
      (args.length = 1 → trailing = true) := by
  simp only [elementTokens, List.length_map]
  by_cases hone : args.length = 1
  · obtain ⟨a, rfl⟩ := List.length_eq_one_iff.mp hone
    exact ⟨true, .cons (h a (by simp)) .nil, fun _ => rfl⟩
  · rw [if_neg hone]
    exact ⟨_, spellsAll_commaTokens h, fun hlength => absurd hlength hone⟩

/-- The segments of a path behind its first one. -/
def moreTokens (line : Nat) (more : List String) : List Token :=
  more.flatMap fun s => [mark line "::", name line s]

theorem continues_moreTokens (more : List String) : Continues (moreTokens line more) more := by
  induction more with
  | nil => exact .nil
  | cons s more ih => exact .cons ih

theorem segmentTokens_cons {first : String} {more : List String}
    (h : ∀ s ∈ first :: more, Text.isIdentifier s = true) :
    segmentTokens line (first :: more) = name line first :: moreTokens line more := by
  rw [Plain.segmentTokens_eq h]
  clear h
  induction more generalizing first with
  | nil => rfl
  | cons s more ih =>
      have hrec := @ih s
      rw [List.map_cons] at hrec
      rw [List.map_cons, List.map_cons, List.intercalate_cons_cons, hrec]
      rfl

/-- The tokens of a path spell it, also with a mark in front. -/
theorem spells_path {root : List Token} {first : String} {more : List String} (hroot : Joint root)
    (hsegments : ∀ s ∈ first :: more, Text.isIdentifier s = true) (hstart : first ∉ reservedStarts)
    (hargs : ∀ a ∈ args, Spells (a.tokens line) a) :
    Spells (root ++ tokens line { segments := first :: more, args })
      { segments := first :: more, args } := by
  rw [tokens, tokensAll_eq_map, segmentTokens_cons hsegments]
  cases args with
  | nil =>
      simp only [argumentTokens, List.map_nil, List.isEmpty_nil, if_true, List.append_nil]
      exact .bare hroot hstart (continues_moreTokens more)
  | cons a args => exact (spellsAll_commaTokens hargs).path hroot hstart (continues_moreTokens more)

theorem Plain.spells (h : r.Plain) : Spells (r.tokens line) r := by
  induction h with
  | path hsegments hstart _ ih => exact spells_path (.inl rfl) hsegments hstart ih
  | ampersand exclusive _ _ ih =>
      cases exclusive with
      | false => exact .shared ih
      | true => exact .exclusive ih
  | star exclusive _ ih =>
      cases exclusive with
      | false => exact .star false ih
      | true => exact .star true ih
  | @tuple args _ ih =>
      obtain ⟨trailing, hall, hone⟩ := spellsAll_elementTokens ih
      rw [tokens, tokensAll_eq_map]
      exact hall.tuple hone
  | slice _ ih => exact .slice ih
  | @array inner length hlength _ ih =>
      obtain ⟨t, htokens, rfl, hkind⟩ := exists_ofText_length hlength
      have hne : t.text ≠ "" := by
        intro hempty
        rw [hempty] at hlength
        revert hlength
        decide
      have hrun : tokens line { modifier := .array, args := [inner], length := t.text } =
          mark line "[" :: (inner.tokens line ++ [mark line ";", t] ++ [mark line "]"]) := by
        rw [tokens, htokens]
        rfl
      rw [hrun]
      exact .array (isInner_of_kind_ne hkind) hne ih

/-- **A plain reference is read back from its tokens**, and what follows them is left. -/
theorem Plain.reads (h : r.Plain) : Reads (r.tokens line) r := h.spells.reads

/-- The brackets that a plain reference is written with match. -/
theorem Plain.balanced (h : r.Plain) : Balanced (r.tokens line) := h.reads.balanced

/-- The tokens of plain references tell them apart, whatever follows. -/
theorem Plain.tokens_append_inj {s : Reference} {ts us : List Token} (hr : r.Plain) (hs : s.Plain)
    (hts : Follows ts) (hus : Follows us) (heq : r.tokens line ++ ts = s.tokens line ++ us) :
    r = s ∧ ts = us := by
  have hlength := congrArg List.length heq
  rw [List.length_append, List.length_append] at hlength
  have hr : Reads (r.tokens line) r := hr.reads
  have hs : Reads (s.tokens line) s := hs.reads
  have hread := hr.read (3 * ((r.tokens line).length + ts.length)) ts hts (by omega)
  have hread' := hs.read (3 * ((r.tokens line).length + ts.length)) us hus (by omega)
  rw [heq] at hread
  rw [hread] at hread'
  cases hread'
  exact ⟨rfl, rfl⟩

theorem Plain.tokens_inj {s : Reference} (hr : r.Plain) (hs : s.Plain)
    (heq : r.tokens line = s.tokens line) : r = s :=
  (hr.tokens_append_inj hs follows_nil follows_nil (by rw [heq])).1

theorem Plain.parse_eq (h : r.Plain) : parse r.render = .ok r := by
  have hlexes : Lexes 1 r.render.toList (r.tokens 1) [] :=
    Lexes.render h.legible Text.separates_nil
  have hreads : Reads (r.tokens 1) r := h.reads
  exact hreads.parse_eq hlexes.lexesTo.lexFrom_eq

theorem Plain.render_inj {s : Reference} (hr : r.Plain) (hs : s.Plain)
    (hrender : r.render = s.render) : r = s := by
  have hparse := hr.parse_eq
  rw [hrender, hs.parse_eq] at hparse
  exact (Except.ok.inj hparse).symm

/-- **Parsing undoes rendering**: a plain reference is what its text is parsed as, and so no two
of them have one text. -/
theorem parse_render {r : Reference} (h : r.Plain) :
    parse r.render = .ok r ∧ ∀ s : Reference, s.Plain → s.render = r.render → s = r :=
  ⟨h.parse_eq, fun _ hs hrender => hs.render_inj h hrender⟩

/-- A slot table behind a mutable reference: `&'a mut [Slot<(u8,)>; 4]`. -/
def slots : Reference where
  modifier := .exclusive
  lifetime := "'a"
  args := [{
    modifier := .array
    length := "4"
    args := [{
      segments := ["Slot"]
      args := [{ modifier := .tuple, args := [ofSegments ["u8"]] }] }] }]

theorem slots_plain : slots.Plain := by
  have hbyte : (ofSegments ["u8"]).Plain := .path (by decide) (by decide) (by simp)
  have htuple : Plain { modifier := .tuple, args := [ofSegments ["u8"]] } :=
    .tuple (by simpa using hbyte)
  refine .ampersand true (.inr (by decide)) (.array (.inr (by decide)) ?_)
  exact .path (by decide) (by decide) (by simpa using htuple)

theorem render_slots : slots.render = "&'a mut [Slot<(u8,)>; 4]" := by decide +kernel

theorem parse_render_slots : slots.Plain ∧ parse "&'a mut [Slot<(u8,)>; 4]" = .ok slots ∧
    ∀ s : Reference, s.Plain → s.render = "&'a mut [Slot<(u8,)>; 4]" → s = slots := by
  refine ⟨slots_plain, ?_⟩
  rw [← render_slots]
  exact parse_render slots_plain

end Reference

end ConversionClosure
