/-
What generated conversions do.

Let every edge be some function between the values of its types.  Then a generated conversion
does what its body says: it converts to the intermediate type and from there to the target, and
each of the two is an edge or generated in turn.  `meaning` unfolds bodies in this way.

Only the last hop of a route is kept in a synthesized conversion.  The hops before it come back
one by one as bodies are unfolded, since the part of an only route before its last hop is an only
route again.  So what a generated conversion does is to follow the only route of its pair.
-/
import ConversionClosure.Proofs.Exactness

namespace ConversionClosure

universe u

variable {g : Graph} {d : Catalog} {c : Closure} {e : Synthesized} {scope : Scope} {b b' : Budget}
  {s t v : TypeId} {mid : List TypeId} {V : TypeId → Type u}

namespace Graph

/-- The functions of the edges along a route, one after the other.  The route passes the types
`mid` before its target. -/
def along (direct : ∀ x y, g.Adj x y → V x → V y) :
    (s : TypeId) → (mid : List TypeId) → List.IsChain g.Adj (s :: (mid ++ [t])) → V s → V t
  | s, [], h => direct s t (List.isChain_pair.mp h)
  | s, v :: mid, h => along direct v mid h.tail ∘ direct s v (List.isChain_cons_cons.mp h).1

variable {direct : ∀ x y, g.Adj x y → V x → V y}

/-- The last function comes after all others. -/
theorem along_append (h : List.IsChain g.Adj (s :: (mid ++ [v] ++ [t])))
    (hinit : List.IsChain g.Adj (s :: (mid ++ [v]))) (hlast : g.Adj v t) :
    along direct s (mid ++ [v]) h = direct v t hlast ∘ along direct s mid hinit := by
  induction mid generalizing s with
  | nil => rfl
  | cons x mid ih =>
      show along direct x (mid ++ [v]) _ ∘ direct s x _ = _
      rw [ih h.tail hinit.tail]
      rfl

end Graph

namespace Closure

/-- What the conversion from one type to another does: the function of the edge between them, or
else what the body of the generated conversion does.  Bodies are unfolded as deep as the fuel
allows. -/
def meaning (c : Closure) (direct : ∀ x y, g.Adj x y → V x → V y) :
    Nat → (s t : TypeId) → Option (V s → V t)
  | 0, _, _ => none
  | fuel + 1, s, t =>
    if h : g.Adj s t then some (direct s t h)
    else
      match c.edges.find? fun e => e.ends = (s, t) with
      | none => none
      | some e => do
        let inner ← meaning c direct fuel s e.via.type
        let outer ← meaning c direct fuel e.via.type t
        return outer ∘ inner

variable {direct : ∀ x y, g.Adj x y → V x → V y}

theorem meaning_of_adj (h : g.Adj s t) (fuel : Nat) :
    meaning c direct (fuel + 1) s t = some (direct s t h) := by
  rw [meaning, dif_pos h]

/-- A body is unfolded into its two calls. -/
theorem meaning_of_find? {fuel : Nat} {inner : V s → V e.via.type} {outer : V e.via.type → V t}
    (hadj : ¬ g.Adj s t) (hfind : c.edges.find? (fun e => e.ends = (s, t)) = some e)
    (hinner : meaning c direct fuel s e.via.type = some inner)
    (houter : meaning c direct fuel e.via.type t = some outer) :
    meaning c direct (fuel + 1) s t = some (outer ∘ inner) := by
  rw [meaning, dif_neg hadj, hfind]
  simp only [hinner, houter]
  rfl

/-- The generated conversion of a pair is the one whose intermediate type the only route passes
last. -/
theorem Settled.exists_find? (h : Settled g d c) {p : List TypeId} (hadj : ¬ g.Adj s t)
    (hdeclared : d.Declares t) (honly : OnlyRoute g.Adj s t (p ++ [v, t])) :
    ∃ e, c.edges.find? (fun e => e.ends = (s, t)) = some e ∧ e.via.type = v := by
  obtain ⟨e, he, hends, -⟩ := h.edges_iff.mpr ⟨hadj, hdeclared, p, honly⟩
  have hsome : (c.edges.find? fun e => e.ends = (s, t)).isSome := by
    rw [List.find?_isSome]
    exact ⟨e, he, by simpa using hends⟩
  obtain ⟨e', hfind⟩ := Option.isSome_iff_exists.mp hsome
  have hends' : e'.ends = (s, t) := by simpa using List.find?_some hfind
  obtain ⟨-, -, q, honly'⟩ :=
    h.edges_iff.mp ⟨e', List.mem_of_find?_eq_some hfind, hends', rfl⟩
  refine ⟨e', hfind, ?_⟩
  have heq := (List.append_inj' (honly'.unique honly) rfl).2
  simpa using heq

/-- **Along an only route, unfolding comes to the composition of the functions.**  The induction
takes the last hop off the route: what is before it is the only route of the inner call. -/
theorem Settled.meaning_eq_along (h : Settled g d c)
    (honly : OnlyRoute g.Adj s t (mid ++ [t])) (hmid : ∀ v ∈ mid, d.Declares v)
    (htarget : d.Declares t) {fuel : Nat} (hfuel : mid.length < fuel) :
    meaning c direct fuel s t = some (Graph.along direct s mid honly.simple.chain) := by
  induction mid using List.reverseRecOn generalizing t fuel with
  | nil =>
      obtain ⟨fuel, rfl⟩ := Nat.exists_eq_add_one_of_ne_zero (Nat.ne_of_gt hfuel)
      exact meaning_of_adj (List.isChain_pair.mp honly.simple.chain) fuel
  | append_singleton mid v ih =>
      rw [List.length_append, List.length_singleton] at hfuel
      obtain ⟨fuel, rfl⟩ : ∃ n, fuel = n + 1 + 1 := ⟨fuel - 2, by omega⟩
      have honly' : OnlyRoute g.Adj s t (mid ++ [v, t]) := by simpa using honly
      have hlast : g.Adj v t := honly'.simple.last_hop
      have hadj : ¬ g.Adj s t := by
        intro hadj
        have hlength := congrArg List.length (honly'.eq_single hadj)
        simp at hlength
      obtain ⟨e, hfind, rfl⟩ := h.exists_find? hadj htarget honly'
      have hinner : meaning c direct (fuel + 1) s e.via.type =
          some (Graph.along direct s mid honly'.before.simple.chain) :=
        ih honly'.before (fun w hw => hmid w (by simp [hw])) (hmid _ (by simp)) (by omega)
      rw [meaning_of_find? hadj hfind hinner (meaning_of_adj hlast fuel),
        Graph.along_append honly.simple.chain honly'.before.simple.chain hlast]

/-- **A generated conversion follows the only route of its pair.**  If the types on the way are
all declared, then its body unfolds, no deeper than the route is long, into the functions of the
edges along the route, one after the other. -/
theorem generated_follows_route (direct : ∀ x y, g.Adj x y → V x → V y)
    (hrun : (synthesize g d).runWith scope b = (.ok c, b')) (he : e ∈ c.edges) :
    ∃ mid, ∃ honly : OnlyRoute g.Adj e.source.type e.target.type (mid ++ [e.target.type]),
      (∀ v ∈ mid, d.Declares v) → ∀ fuel, mid.length < fuel →
        meaning c direct fuel e.source.type e.target.type =
          some (Graph.along direct e.source.type mid honly.simple.chain) := by
  have h := settled_of_runWith hrun
  obtain ⟨-, htarget, p, honly⟩ := h.of_mem_edges he
  have honly' : OnlyRoute g.Adj e.source.type e.target.type
      (p ++ [e.via.type] ++ [e.target.type]) := by simpa using honly
  refine ⟨p ++ [e.via.type], honly', ?_⟩
  intro hmid fuel hfuel
  exact h.meaning_eq_along honly' hmid htarget hfuel

/-- The function that adds the target of an edge to the types passed so far. -/
def Relay.note (x y : TypeId) (_ : Relay.graph.Adj x y) (passed : List TypeId) : List TypeId :=
  y :: passed

/-- In the chain with all types declared, the conversion from `A` to `T` passes `B`, `V` and `T`
in this order. -/
theorem generated_follows_route_relay :
    ∃ scope b c b', (synthesize Relay.graph Relay.declared).runWith scope b = (.ok c, b') ∧
      ∃ e ∈ c.edges, e.ends = ((Relay.named "A").type, (Relay.named "T").type) ∧
        ∃ f, meaning c Relay.note 3 e.source.type e.target.type = some f ∧
          f [] = [(Relay.named "T").type, (Relay.named "V").type, (Relay.named "B").type] := by
  obtain ⟨scope, b, c, b', hrun⟩ := exists_runWith Relay.declared Relay.hasTexts
  obtain ⟨e, he, hends, -⟩ := (settled_of_runWith hrun).edges_iff.mpr
    ⟨by decide, by decide, _, Relay.onlyRoute_target⟩
  obtain ⟨mid, honly, hmeaning⟩ := generated_follows_route Relay.note hrun he
  obtain ⟨hsource, htarget⟩ := Prod.mk.inj hends
  have hmid : mid = [(Relay.named "B").type, (Relay.named "V").type] := by
    have hroute := honly
    rw [hsource, htarget] at hroute
    exact List.append_cancel_right (hroute.unique Relay.onlyRoute_target)
  subst hmid
  refine ⟨scope, b, c, b', hrun, e, he, hends, _, hmeaning ?_ 3 (by decide), ?_⟩
  · decide
  · rw [← htarget]
    rfl

end Closure

end ConversionClosure
