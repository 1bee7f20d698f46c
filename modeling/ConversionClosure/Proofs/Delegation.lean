/-
What generated conversions call.

The body of a generated conversion calls two others, one into the intermediate type and one out
of it.  The one out of it goes along an edge.  The one into it starts the same route and is
shorter, so by `OnlyRoute.before` it has one route too, and so it is generated as well, unless
it is an edge itself.

It takes a declared type to be generated, though, and an intermediate type need not be one.
Then the body calls a conversion that is neither declared nor generated.
-/
import ConversionClosure.Emission
import ConversionClosure.Proofs.Exactness

namespace ConversionClosure

variable {g : Graph} {d : Catalog} {c : Closure} {e : Synthesized} {scope : Scope} {b b' : Budget}

/-- The conversions that the body of a generated one calls, the outer one first. -/
def Synthesized.calls (e : Synthesized) : List (Reference × Reference) :=
  [(e.via, e.target), (e.source, e.via)]

namespace Emission

/-- A text makes some calls, one after the other. -/
def MakesCalls (style : EmissionStyle) (text : String) : List (Reference × Reference) → Prop
  | [] => True
  | (source, target) :: rest => ∃ before after,
    text = before ++ callText style source target ++ after ∧ MakesCalls style after rest

theorem conversionText_makesCalls (style : EmissionStyle) (e : Synthesized) :
    MakesCalls style (conversionText style e) e.calls := by
  let one := style.indent
  let two := one ++ one
  let three := two ++ one
  let closing := "value),\n" ++ two ++ ")\n" ++ one ++ "\x7d\n\x7d"
  refine ⟨"impl" ++ generics e.source.declaredLifetimes ++ " " ++ style.traitPath ++ "<" ++
      e.source.render ++ "> for " ++ e.target.render ++ " \x7b\n" ++ one ++ "fn from(value: " ++
      e.source.render ++ ") -> Self \x7b\n" ++ two,
    "\n" ++ three ++ callText style e.source e.via ++ closing, ?_,
    "\n" ++ three, closing, rfl, trivial⟩
  simp [conversionText, joinLines, String.intercalate_cons_cons, String.append_assoc, one, two,
    three, closing]

end Emission

namespace Closure

/-- **What a generated conversion calls.**  Its text makes the calls.  The call out of the
intermediate type goes along an edge.  All calls are available exactly when the intermediate type
is declared or is one edge away from the source; otherwise the pair that the inner call needs has
been excluded as foreign. -/
theorem calls_available_iff (hrun : (synthesize g d).runWith scope b = (.ok c, b'))
    (he : e ∈ c.edges) :
    (∀ style, Emission.MakesCalls style (Emission.conversionText style e) e.calls) ∧
      g.Adj e.via.type e.target.type ∧
      ((∀ call ∈ e.calls, Available g c call.1.type call.2.type) ↔
        g.Adj e.source.type e.via.type ∨ d.Declares e.via.type) ∧
      (¬ Available g c e.source.type e.via.type →
        ∃ x ∈ c.exclusions, x.ends = (e.source.type, e.via.type) ∧ x.reason = .foreign) := by
  have h := settled_of_runWith hrun
  obtain ⟨-, -, p, honly⟩ := h.of_mem_edges he
  have hlast : g.Adj e.via.type e.target.type := honly.simple.last_hop
  have hinner := h.available_iff honly.before
  refine ⟨fun style => Emission.conversionText_makesCalls style e, hlast, ?_, ?_⟩
  · rw [← hinner]
    simp [Synthesized.calls, Available, hlast]
  · intro hnot
    rw [hinner, not_or] at hnot
    exact h.foreign_iff.mpr ⟨hnot.1, ⟨_, honly.before⟩, hnot.2⟩

/-- In the chain, the conversion from `B` to `T` goes through `V`, which is one edge away, and so
all its calls are available. -/
theorem calls_available_relay :
    ∃ scope b c b', (synthesize Relay.graph Relay.withoutVia).runWith scope b = (.ok c, b') ∧
      ∃ e ∈ c.edges, e.ends = ((Relay.named "B").type, (Relay.named "T").type) ∧
        ∀ call ∈ e.calls, Available Relay.graph c call.1.type call.2.type := by
  obtain ⟨scope, b, c, b', hrun⟩ := exists_runWith Relay.withoutVia Relay.hasTexts
  have honly : OnlyRoute Relay.graph.Adj (Relay.named "B").type (Relay.named "T").type
      ([] ++ [(Relay.named "V").type, (Relay.named "T").type]) :=
    Relay.onlyRoute ⟨by decide, by decide, rfl⟩
  obtain ⟨e, he, hends, hvia⟩ :=
    (settled_of_runWith hrun).edges_iff.mpr ⟨by decide, by decide, [], honly⟩
  refine ⟨scope, b, c, b', hrun, e, he, hends, ?_⟩
  refine (calls_available_iff hrun he).2.2.1.mpr (Or.inl ?_)
  rw [hvia, (Prod.mk.inj hends).1]
  decide

/-- The conversion from `A` to `T` goes through `V` as well, but from `A` to `V` there is no
conversion. -/
theorem inner_call_missing_relay :
    ∃ scope b c b', (synthesize Relay.graph Relay.withoutVia).runWith scope b = (.ok c, b') ∧
      ∃ e ∈ c.edges, e.ends = ((Relay.named "A").type, (Relay.named "T").type) ∧
        ¬ Available Relay.graph c e.source.type e.via.type := by
  obtain ⟨scope, b, c, b', hrun⟩ := exists_runWith Relay.withoutVia Relay.hasTexts
  have h := settled_of_runWith hrun
  obtain ⟨e, he, hends, hvia⟩ :=
    h.edges_iff.mpr ⟨by decide, by decide, _, Relay.onlyRoute_target⟩
  refine ⟨scope, b, c, b', hrun, e, he, hends, ?_⟩
  rw [hvia, (Prod.mk.inj hends).1, h.available_iff Relay.onlyRoute_via, not_or]
  exact ⟨by decide, by decide⟩

end Closure

end ConversionClosure
