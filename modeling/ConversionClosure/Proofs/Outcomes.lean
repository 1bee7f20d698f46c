/-
What a pass can come to.

A pass asks questions that may have no answer.  A conversion joins two types only if they differ, a
text or a set of names needs the parts that it is made of, and the edges of a closure have to be in
the order of their texts.  On units that were read each of these questions has its answer.  So
nothing but the budget or the deadline keeps a pass from its report, and there is a text for
whatever the report shows.

What a search shows may be a type that it met on its way.  That one means the same as an end of some
edge, and lifetimes do not matter to whether there is a text.
-/
import ConversionClosure.Proofs.Rearranging

namespace ConversionClosure

/-! ### Texts of exclusions -/

namespace SimpleRoute

variable {ν : Type} {adj : ν → ν → Prop} {s t v : ν} {route : List ν}

/-- A hop leads to every type that a route passes. -/
theorem exists_adj_of_mem (h : SimpleRoute adj s t route) (hv : v ∈ route) : ∃ u, adj u v := by
  have hchain := h.chain
  clear h
  induction route generalizing s with
  | nil => simp at hv
  | cons x route ih =>
      obtain ⟨hadj, hrest⟩ := List.isChain_cons_cons.mp hchain
      rcases List.mem_cons.mp hv with rfl | hv
      · exact ⟨s, hadj⟩
      · exact ih hv hrest

end SimpleRoute

namespace Graph

variable {g : Graph} {x y : TypeId} {r : Reference}

theorem hasText_of_adj_right (hg : g.hasTexts = true) (hadj : g.Adj x r.type) :
    r.hasText = true := by
  obtain ⟨e, he, hends⟩ := hadj
  rw [← Reference.hasText_congr (Prod.mk.inj hends).2]
  exact (hasTexts_iff.mp hg e he).2

theorem hasText_of_adj_left (hg : g.hasTexts = true) (hadj : g.Adj r.type y) :
    r.hasText = true := by
  obtain ⟨e, he, hends⟩ := hadj
  rw [← Reference.hasText_congr (Prod.mk.inj hends).1]
  exact (hasTexts_iff.mp hg e he).1

end Graph

/-- Both ends of the pair have texts, and so has whatever its routes pass. -/
structure Exclusion.HasTexts (e : Exclusion) : Prop where
  source : e.source.hasText = true
  target : e.target.hasText = true
  routes : ∀ route ∈ e.routes, ∀ r ∈ route, r.hasText = true

namespace Closure

variable {g : Graph} {d : Catalog} {c : Closure}

theorem hasText_of_simpleRoute {s t : TypeId} {route : List Reference} (hg : g.hasTexts = true)
    (hroute : SimpleRoute g.Adj s t (route.map Reference.type)) :
    ∀ r ∈ route, r.hasText = true := by
  intro r hr
  obtain ⟨u, hadj⟩ := hroute.exists_adj_of_mem (List.mem_map_of_mem hr)
  exact Graph.hasText_of_adj_right hg hadj

/-- **An excluded pair has the texts that are shown of it.** -/
theorem Settled.hasTexts_of_mem_exclusions {e : Exclusion} (h : Settled g d c)
    (hg : g.hasTexts = true) (he : e ∈ c.exclusions) : e.HasTexts := by
  obtain ⟨t, hroute, hjudged⟩ := h.judged_of_shows (.excluded e) (by simp) he
  obtain ⟨y, hfirst, -⟩ := Relation.TransGen.head'_iff.mp hroute.transGen
  obtain ⟨u, hlast⟩ := hroute.exists_adj_of_mem hroute.mem
  have hsource := Graph.hasText_of_adj_left hg hfirst
  have htarget := Graph.hasText_of_adj_right hg hlast
  have hpassed : ∀ r ∈ t.route, r.hasText = true := hasText_of_simpleRoute hg hroute
  cases hjudged with
  | @ambiguous other _ hother =>
      have hround := hasText_of_simpleRoute hg hother.simpleRoute.1
      refine ⟨hsource, htarget, fun route hmem => ?_⟩
      rcases List.mem_pair.mp hmem with rfl | rfl
      · exact hpassed
      · exact hround
  | foreign _ _ _ => exact ⟨hsource, htarget, List.forall_mem_singleton.mpr hpassed⟩

end Closure

/-! ### Reports -/

/-- There is a text for whatever the report shows, and the generated conversions can be written. -/
structure Report.HasTexts (r : Report) : Prop where
  graph : r.graph.hasTexts = true
  edges : ∀ e ∈ r.edges, Emission.isWritable e = true
  exclusions : ∀ e ∈ r.exclusions, e.HasTexts
  dropped : ∀ d ∈ r.dropped, d.hasTexts = true

namespace Pass

open Metered

variable {settings : Settings} {units : List SourceUnit}

/-- Every question that a pass asks on its way to a report has its answer. -/
structure Answers (settings : Settings) (units : List SourceUnit) (report : Report) : Prop where
  /-- What becomes of a declaration is settled. -/
  verdict : ∀ unit ∈ units, ∀ d ∈ unit.conversions, d.verdict = .ok d.normalize
  /-- No accepted pair joins a type to itself. -/
  between : ∀ p ∈ Registry.acceptedPairs settings.traitName units,
    ∃ e, Edge.between p.1 p.2 = .ok e
  /-- The edges of the closure are in their order. -/
  ordered : requireOrdered "build_transitivity.edges" Synthesized.key report.edges =
    .ok report.edges
  texts : report.HasTexts

theorem answers_of_settled {d : Catalog} {g : Graph} {c : Closure} (emission : Emission)
    (warnings : List String) (hsound : ∀ unit ∈ units, unit.IsSound)
    (hg : g.Joins (Registry.acceptedPairs settings.traitName units))
    (hc : Closure.Settled g d c) :
    Answers settings units ⟨d, g, c.edges, c.exclusions,
      sortBy Dropped.key (Registry.droppedDecls settings.traitName units), emission, warnings⟩ where
  verdict := fun unit hunit decl hdecl => by
    rw [ConversionDecl.verdict, (hsound unit hunit decl hdecl).isSettled]
    rfl
  between := fun p hp => by
    have hdistinct := (Registry.sound_of_accepted hsound hp).2.2
    rw [Ne, Reference.type_eq_iff] at hdistinct
    exact ⟨_, by rw [Edge.between, dif_neg hdistinct]⟩
  ordered := requireOrdered_of_settled hc _
  texts := by
    have href := Registry.sound_of_mem_references hsound hg
    have htexts := Graph.hasTexts_of_sound href
    exact {
      graph := htexts
      edges := fun e he => (hc.isSound href he).isWritable
      exclusions := fun e he => hc.hasTexts_of_mem_exclusions htexts he
      dropped := fun r hr => Registry.hasTexts_of_dropped hsound (mem_sortBy.mp hr) }

/-- **On units that were read a pass gives its report or runs out of its budget or its time.**  The
report is the same by every clock, and on the way to it every question has its answer. -/
theorem run_ok_or_timeout (settings : Settings) (hread : ∀ unit ∈ units, unit.IsRead)
    (hlimit : 0 < settings.workLimit) (htime : 0 ≤ settings.timeoutMs) :
    ∃ report, Answers settings units report ∧
      ∀ clock, run settings units clock = .ok report ∨
        ∃ t, run settings units clock = .error (.timeout t) := by
  have hsound : ∀ unit ∈ units, unit.IsSound := fun unit hunit => (hread unit hunit).isSound
  obtain ⟨d, g, closing, c, emission, hg, hsettled, -, hstages⟩ := exists_stages settings hread
  have hanswers :=
    answers_of_settled emission (Report.warningsOf units c.edges) hsound hg hsettled
  refine ⟨_, hanswers, fun clock => ?_⟩
  rw [run_eq hlimit htime]
  exact (hstages _).fst_eq_or_timeout _

/-- Each tick takes half a millisecond. -/
def halfMilliseconds : Clock := fun ticks => ticks * 500000

/-- The halves of a conversion with one millisecond, by that clock: it is over at the second
tick. -/
theorem run_ok_or_timeout_halves :
    ∃ report, Answers { timeoutMs := 1 } [firstHalf, secondHalf] report ∧
      ∃ t, run { timeoutMs := 1 } [firstHalf, secondHalf] halfMilliseconds =
        .error (.timeout t) := by
  obtain ⟨report, hanswers, hclocks⟩ :=
    run_ok_or_timeout { timeoutMs := 1 } isRead_halves (by decide) (by decide)
  refine ⟨report, hanswers, (hclocks halfMilliseconds).resolve_left fun hrun => ?_⟩
  obtain ⟨report', closing, -, hstages⟩ := exists_performs { timeoutMs := 1 } isRead_halves
  rw [run_eq (by decide) (by decide)] at hrun
  obtain rfl := Except.ok.inj ((hstages _).eq_of_runWith (Prod.ext hrun rfl))
  have hallows := Timer.allows_iff.mp ((hstages _).runWith_fst_eq_ok_iff.mp hrun)
  have hlength : 2 ≤ (charges [firstHalf, secondHalf] closing report'.edges).length := by
    simp only [charges, chargesOf, List.length_append, List.length_map, List.length_replicate]
    exact Nat.le_add_right 2 _
  have hopen := hallows.1 2 (by decide) (by simpa [Settings.budget] using hlength)
  exact absurd hopen (by decide)

end Pass

end ConversionClosure
