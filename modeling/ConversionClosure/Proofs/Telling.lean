/-
Telling conversions apart by their texts.

A conversion is shown as `A -> B`, and one that is synthesized as `A -> B (via C)`.  If the types
are plain, the text tells which conversion it is.  The source ends at the arrow, where a reader
stops that starts in front of it.  The target does not end where a reader stops, for `B(via C)`
would be read as one segment.  But a group ends the text, and the last token ends no other group, so
the group tells where the target ends.

So nothing is lost where texts are listed: graphs with the same texts have the same edges, and the
conversions of a closure have different texts.
-/
import ConversionClosure.Proofs.Rearranging
import ConversionClosure.Proofs.Reparsing

namespace ConversionClosure

open Text Token Reference

variable {line : Nat} {a b a' b' : Reference} {ds ds' : List Char} {us us' : List Token}

/-! ### Edges -/

namespace Edge

/-- The tokens of the text of a conversion. -/
def tokens (line : Nat) (source target : Reference) : List Token :=
  source.tokens line ++ mark line "->" :: target.tokens line

theorem lexes_render (ha : a.Plain) (hb : b.Plain) (hsep : Separates ds)
    (hmore : Lexes line ds us []) :
    Lexes line ((render a b).toList ++ ds) (tokens line a b ++ us) [] := by
  have htext : (render a b).toList ++ ds =
      a.render.toList ++ ' ' :: ("->".toList ++ ' ' :: (b.render.toList ++ ds)) := by
    simp [render]
  rw [htext, tokens, List.append_assoc]
  refine Lexes.render_append ha.legible (separates_cons.mpr (by decide)) (Lexes.blank_append ?_)
  refine Lexes.punct_append (by decide) (Lexes.blank_append ?_)
  exact Lexes.render_append hb.legible (by simpa using hsep) hmore

/-- Whatever stands behind a conversion, the text tells its source, and what the tokens behind the
arrow are. -/
theorem source_eq_of_render (ha : a.Plain) (hb : b.Plain) (ha' : a'.Plain) (hb' : b'.Plain)
    (hsep : Separates ds) (hsep' : Separates ds') (h : Lexes 1 ds us []) (h' : Lexes 1 ds' us' [])
    (heq : (render a b).toList ++ ds = (render a' b').toList ++ ds') :
    a = a' ∧ b.tokens 1 ++ us = b'.tokens 1 ++ us' := by
  have harrow : ∀ ts, Reference.Follows (mark 1 "->" :: ts) :=
    fun _ => follows_cons.mpr (by simp)
  have hlexes := lexes_render ha hb hsep h
  rw [heq] at hlexes
  have htokens := hlexes.unique (lexes_render ha' hb' hsep' h')
  rw [tokens, tokens, List.append_assoc, List.append_assoc] at htokens
  obtain ⟨hsource, hrest⟩ := ha.tokens_append_inj ha' (harrow _) (harrow _) htokens
  exact ⟨hsource, (List.cons.inj hrest).2⟩

/-- The text of a conversion between plain types tells its ends. -/
theorem render_inj (ha : a.Plain) (hb : b.Plain) (ha' : a'.Plain) (hb' : b'.Plain)
    (heq : render a b = render a' b') : a = a' ∧ b = b' := by
  obtain ⟨hsource, htarget⟩ := source_eq_of_render ha hb ha' hb' separates_nil separates_nil
    Lexes.nil Lexes.nil (by rw [heq])
  exact ⟨hsource, (hb.tokens_append_inj hb' follows_nil follows_nil htarget).1⟩

/-- Types with an arrow of their own are not told apart. -/
example : render (.ofText "fn(A) -> fn(B)") (.ofText "C") =
    render (.ofText "fn(A)") (.ofText "fn(B) -> C") := by decide +kernel

end Edge

/-! ### Conversions that are synthesized, and pairs that are not -/

namespace Synthesized

variable {s s' : Synthesized}

/-- The tokens of what is shown behind the ends of a synthesized conversion. -/
def viaTokens (line : Nat) (via : Reference) : List Token :=
  mark line "(" :: (name line "via" :: via.tokens line) ++ [mark line ")"]

theorem lexes_via (h : a.Plain) :
    Lexes line (" (via " ++ a.render ++ ")").toList (viaTokens line a) [] := by
  have htext : (" (via " ++ a.render ++ ")").toList =
      ' ' :: ("(".toList ++ ("via".toList ++ ' ' :: (a.render.toList ++ ")".toList))) := by
    simp
  rw [htext]
  refine Lexes.blank_append (Lexes.punct_append (by decide) ?_)
  refine Lexes.identifier_append (by decide) (separates_cons.mpr (by decide)) ?_
  refine Lexes.blank_append (Lexes.render_append h.legible (separates_cons.mpr (by decide)) ?_)
  exact Lexes.punct (by decide)

/-- **The text of a synthesized conversion tells it**, if its types are plain. -/
theorem render_inj (h : Emission.IsPlain s) (h' : Emission.IsPlain s')
    (heq : s.render = s'.render) : s = s' := by
  have htext : ∀ s : Synthesized, s.render.toList =
      (Edge.render s.source s.target).toList ++ (" (via " ++ s.via.render ++ ")").toList := by
    simp [render]
  have hsep : ∀ via : String, Separates (" (via " ++ via ++ ")").toList := fun via => by
    simpa using (by decide : isSeparator ' ' = true)
  have hgroup : ∀ via : Reference, via.Plain → Balanced (name 1 "via" :: via.tokens 1) :=
    fun via hvia => .inner isInner_name hvia.balanced
  have hchars := congrArg String.toList heq
  rw [htext, htext] at hchars
  obtain ⟨hsource, hrest⟩ := Edge.source_eq_of_render h.source h.target h'.source h'.target
    (hsep _) (hsep _) (lexes_via h.via) (lexes_via h'.via) hchars
  -- a reader takes the target and the bracket for one segment, so the last group tells them apart
  obtain ⟨htarget, hvia⟩ := h.target.balanced.append_group_inj rfl rfl (hgroup _ h.via)
    h'.target.balanced rfl rfl (hgroup _ h'.via) hrest
  obtain ⟨source, target, via⟩ := s
  obtain ⟨source', target', via'⟩ := s'
  rw [mk.injEq]
  exact ⟨hsource, h.target.tokens_inj h'.target htarget,
    h.via.tokens_inj h'.via (List.cons.inj hvia).2⟩

end Synthesized

theorem ExclusionReason.text_inj {reason reason' : ExclusionReason}
    (heq : reason.text = reason'.text) : reason = reason' := by
  revert heq
  cases reason <;> cases reason' <;> decide

/-- The text of an excluded pair tells the pair and the reason, if its types are plain. -/
theorem Exclusion.render_inj {e e' : Exclusion} (ha : e.source.Plain) (hb : e.target.Plain)
    (ha' : e'.source.Plain) (hb' : e'.target.Plain) (heq : e.render = e'.render) :
    e.source = e'.source ∧ e.target = e'.target ∧ e.reason = e'.reason := by
  have htext : ∀ e : Exclusion, e.render.toList =
      (Edge.render e.source e.target).toList ++ ':' :: ' ' :: e.reason.text.toList := by
    simp [render]
  have hreason : ∀ reason : ExclusionReason, Lexes 1 (':' :: ' ' :: reason.text.toList)
      [mark 1 ":", name 1 reason.text] [] := by
    intro reason
    refine Lexes.colon_append (Lexes.identifier ?_ separates_nil)
    cases reason <;> decide
  have hsep : ∀ cs, Separates (':' :: cs) := fun _ => separates_cons.mpr (by decide)
  have hchars := congrArg String.toList heq
  rw [htext, htext] at hchars
  obtain ⟨hsource, hrest⟩ := Edge.source_eq_of_render ha hb ha' hb' (hsep _) (hsep _)
    (hreason _) (hreason _) hchars
  obtain ⟨htarget, hreasons⟩ := List.append_inj' hrest rfl
  have hname : e.reason.text = e'.reason.text := by simpa [name] using hreasons
  exact ⟨hsource, hb.tokens_inj hb' htarget, ExclusionReason.text_inj hname⟩

/-! ### Listings -/

namespace Graph

variable {g g' : Graph}

theorem edgeTexts_of_plain (h : ∀ r ∈ g.references, r.Plain) :
    g.edgeTexts = .ok (g.sortedEdges.map fun e => Edge.render e.source e.target) := by
  rw [edgeTexts, hasTexts_of_sound fun r hr => (h r hr).sound]
  rfl

/-- Sorted edges between plain types are told by their texts, one by one. -/
theorem sortedEdges_eq_of_texts (h : ∀ r ∈ g.references, r.Plain)
    (h' : ∀ r ∈ g'.references, r.Plain)
    (hlists : g.sortedEdges.map (fun e => Edge.render e.source e.target) =
      g'.sortedEdges.map fun e => Edge.render e.source e.target) :
    g.sortedEdges = g'.sortedEdges := by
  have hpairs : g.sortedEdges.map Edge.pair = g'.sortedEdges.map Edge.pair := by
    refine map_eq_of_map_eq (fun e he f hf hrender => ?_) hlists
    obtain ⟨hes, het⟩ := mem_references (mem_sortBy.mp he)
    obtain ⟨hfs, hft⟩ := mem_references (mem_sortBy.mp hf)
    exact Prod.ext_iff.mpr (Edge.render_inj (h _ hes) (h _ het) (h' _ hfs) (h' _ hft) hrender)
  exact List.map_injective_iff.mpr (fun _ _ => Edge.pair_inj) hpairs

/-- **Graphs of plain types are listed alike exactly when they have the same edges.** -/
theorem edgeTexts_eq_iff (h : ∀ r ∈ g.references, r.Plain) (h' : ∀ r ∈ g'.references, r.Plain) :
    g.edgeTexts = g'.edgeTexts ↔ g.edges.Perm g'.edges := by
  rw [edgeTexts_of_plain h, edgeTexts_of_plain h', Except.ok.injEq]
  constructor
  · intro hlists
    have hsorted : ∀ g : Graph, g.sortedEdges.Perm g.edges := fun g => sortBy_perm _ g.edges
    have hedges := sortedEdges_eq_of_texts h h' hlists
    exact (hsorted g).symm.trans (hedges ▸ hsorted g')
  · intro hperm
    have htell : ∀ r ∈ g.references, ∀ s ∈ g.references, r.render = s.render → r = s :=
      fun r hr s hs hrender => (h r hr).render_inj (h s hs) hrender
    rw [sortedEdges_of_perm hperm htell]

end Graph

/-- The conversions of a closure have different texts, if the types of the graph are plain. -/
theorem Closure.Settled.texts_nodup {g : Graph} {d : Catalog} {c : Closure} (h : Settled g d c)
    (hplain : ∀ r ∈ g.references, r.Plain) : (c.edges.map Synthesized.render).Nodup := by
  have hnodup : (c.edges.map Synthesized.ends).Nodup := (List.nodup_append.mp h.nodup).1
  have hmade : ∀ e ∈ c.edges, Emission.IsPlain e := by
    intro e he
    obtain ⟨hsource, htarget, hvia⟩ := h.mem_references he
    exact ⟨hplain _ hsource, hplain _ htarget, hplain _ hvia⟩
  refine (List.Nodup.of_map _ hnodup).map_on ?_
  exact fun e he f hf hrender => Synthesized.render_inj (hmade e he) (hmade f hf) hrender

end ConversionClosure
