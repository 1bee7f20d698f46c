/-
The stages of a pass.

A pass goes through its stages one after the other, so its charges and its outcome are put together
from theirs.  On units that were read every stage comes to its end, and so does the pass; the budget
is all that may keep it from that.

The deadline and the budget that a pass starts with come from its settings, and so do those of the
loading before it.  The clock is given.
-/
import ConversionClosure.Pass
import ConversionClosure.Proofs.Collecting
import ConversionClosure.Proofs.Registering

namespace ConversionClosure

namespace Settings

/-- The deadline of a computation, with its clock. -/
def timer (settings : Settings) (clock : Clock) : Timer := ⟨⟨settings.timeoutMs.toNat⟩, clock⟩

/-- The scope in which a computation starts. -/
def scope (settings : Settings) (stage : Stage) (clock : Clock) : Scope :=
  ⟨stage.text, settings.timer clock⟩

/-- The budget with which a computation starts. -/
def budget (settings : Settings) : Budget := { limit := settings.workLimit.toNat }

/-- A deadline that no reading of the clock has reached gives some time. -/
theorem timeoutMs_pos {settings : Settings} {clock : Clock} {n : Nat}
    (h : (settings.timer clock).expired n = false) : 0 < settings.timeoutMs := by
  have hless : ¬ settings.timeoutMs.toNat * 1000000 ≤ clock n := of_decide_eq_false h
  omega

theorem expired_still {settings : Settings} (h : 0 < settings.timeoutMs) (n : Nat) :
    (settings.timer .still).expired n = false :=
  Deadline.expired_still (show 0 < settings.timeoutMs.toNat by omega) n

end Settings

namespace Pass

open Metered

variable {settings : Settings} {scope : Scope} {units : List SourceUnit} {clock : Clock}

/-! ### Computations under settings -/

theorem ofMilliseconds_int (n : Int) : Deadline.ofMilliseconds (.int n) =
    if n < 0 then .error (.broken (.timeLimit (toString n))) else .ok ⟨n.toNat⟩ := by
  show (if n < 0 then _ else _ : Except Fault Deadline) = _
  split
  · rfl
  · rfl

/-- A computation starts when the time that is given is not negative and the limit is positive. -/
theorem withBudget_eq_ok_iff {α : Type} {stage : Stage} {x : Metered α}
    {r : Except Fault α × Budget} : withBudget settings stage x clock = .ok r ↔
      0 ≤ settings.timeoutMs ∧ 0 < settings.workLimit ∧
        x.runWith (settings.scope stage clock) settings.budget = r := by
  unfold withBudget
  rw [ofMilliseconds_int, Budget.ofLimit_int]
  by_cases htime : settings.timeoutMs < 0
  · rw [if_pos htime]
    exact iff_of_false nofun fun h => Int.not_le.mpr htime h.1
  by_cases hlimit : settings.workLimit ≤ 0
  · rw [if_neg htime, if_pos hlimit]
    exact iff_of_false nofun fun h => Int.not_le.mpr h.2.1 hlimit
  rw [if_neg htime, if_neg hlimit]
  show Except.ok _ = Except.ok r ↔ _
  rw [Except.ok.injEq]
  exact ⟨fun h => ⟨Int.not_lt.mp htime, Int.not_le.mp hlimit, h⟩, fun h => h.2.2⟩

theorem run_eq (hlimit : 0 < settings.workLimit) (htime : 0 ≤ settings.timeoutMs) :
    run settings units clock =
      ((stages settings units).runWith (settings.scope .unscoped clock) settings.budget).1 := by
  have hstart : runMetered settings units clock =
      .ok ((stages settings units).runWith (settings.scope .unscoped clock) settings.budget) :=
    withBudget_eq_ok_iff.mpr ⟨htime, hlimit, rfl⟩
  rw [run, hstart]
  rfl

/-! ### Stages -/

/-- What the stages charge, one after the other. -/
def chargesOf (units declared closing written : List Site) : List Charge :=
  (units.map fun site => (Stage.catalog.text, site)) ++
    ((declared.map fun site => (Stage.registry.text, site)) ++
      ((closing.map fun site => (Stage.closure.text, site)) ++
        (written.map fun site => (Stage.emission.text, site))))

/-- The stages come to their end one after the other. -/
theorem performs_stages {d : Catalog} {registry : Registry} {c : Closure} {emission : Emission}
    {collecting building closing planning : List Site}
    (hcollect : (Catalog.collect units).Does collecting (.ok d))
    (hbuild : (Registry.build units settings.traitName).Does building (.ok registry))
    (hclosure : (Closure.synthesize registry.graph d).Does closing (.ok c))
    (hordered : requireOrdered "build_transitivity.edges" Synthesized.key c.edges = .ok c.edges)
    (hplan : (Emission.plan settings.style c.edges).Does planning (.ok emission)) :
    (stages settings units).Performs scope (chargesOf collecting building closing planning)
      (.ok ⟨d, registry.graph, c.edges, c.exclusions, registry.dropped, emission,
        Report.warningsOf units c.edges⟩) := by
  refine (hcollect.inStage _).bind ((hbuild.inStage _).bind ((hclosure.inStage _).bind ?_))
  rw [hordered, ← List.append_nil (planning.map _)]
  exact (hplan.inStage _).bind (Performs.pure _)

theorem requireOrdered_of_settled {g : Graph} {d : Catalog} {c : Closure}
    (h : Closure.Settled g d c) (source : String) :
    requireOrdered source Synthesized.key c.edges = .ok c.edges := by
  obtain ⟨trails, verdicts, -, -, rfl⟩ := h
  exact requireOrdered_sortBy source Synthesized.key _

/-- The charges of a pass over some units: one for each unit in the catalog, one for each unit and
one for each of its declarations in the registry, those of the closure, and one for each conversion
that is synthesized. -/
def charges (units : List SourceUnit) (closing : List Site) (edges : List Synthesized) :
    List Charge :=
  chargesOf (List.replicate units.length .collectTypes) (units.flatMap Registry.charges) closing
    (List.replicate edges.length .planEmission)

/-- On units that were read every stage comes to its end: the graph joins the accepted pairs, its
closure is settled, and the file is written of the edges of the closure. -/
theorem exists_written (settings : Settings) (hread : ∀ unit ∈ units, unit.IsRead) :
    ∃ (d : Catalog) (g : Graph) (closing : List Site) (c : Closure),
      g.Joins (Registry.acceptedPairs settings.traitName units) ∧ Closure.Settled g d c ∧
      (Closure.synthesize g d).Does closing (.ok c) ∧
      ∀ scope, (stages settings units).Performs scope (charges units closing c.edges)
        (.ok ⟨d, g, c.edges, c.exclusions,
          sortBy Dropped.key (Registry.droppedDecls settings.traitName units),
          ⟨c.edges.map (Emission.write settings.style), settings.style.prelude,
            settings.style.header⟩, Report.warningsOf units c.edges⟩) := by
  have hsound : ∀ unit ∈ units, unit.IsSound := fun unit hunit => (hread unit hunit).isSound
  obtain ⟨d, hcollect, -⟩ := Catalog.does_collect units
  obtain ⟨g, hbuild, hg⟩ := Registry.does_build hsound settings.traitName
  have href := Registry.sound_of_mem_references hsound hg
  obtain ⟨closing, c, hclosure, hsettled⟩ :=
    Closure.does_synthesize d (Graph.hasTexts_of_sound href)
  have hordered := requireOrdered_of_settled hsettled "build_transitivity.edges"
  have hplan := @Emission.does_plan settings.style _ fun e he =>
    (hsettled.isSound href he).isWritable
  exact ⟨d, g, closing, c, hg, hsettled, hclosure, fun scope =>
    performs_stages hcollect hbuild hclosure hordered hplan⟩

/-- On units that were read every stage comes to its end: the graph joins the accepted pairs, and
its closure is settled. -/
theorem exists_stages (settings : Settings) (hread : ∀ unit ∈ units, unit.IsRead) :
    ∃ (d : Catalog) (g : Graph) (closing : List Site) (c : Closure) (emission : Emission),
      g.Joins (Registry.acceptedPairs settings.traitName units) ∧ Closure.Settled g d c ∧
      (Closure.synthesize g d).Does closing (.ok c) ∧
      ∀ scope, (stages settings units).Performs scope (charges units closing c.edges)
        (.ok ⟨d, g, c.edges, c.exclusions,
          sortBy Dropped.key (Registry.droppedDecls settings.traitName units), emission,
          Report.warningsOf units c.edges⟩) := by
  obtain ⟨d, g, closing, c, hg, hsettled, hclosure, hstages⟩ := exists_written settings hread
  exact ⟨d, g, closing, c, _, hg, hsettled, hclosure, hstages⟩

/-- **On units that were read a pass comes to its end, with a report.** -/
theorem exists_performs (settings : Settings) (hread : ∀ unit ∈ units, unit.IsRead) :
    ∃ (report : Report) (closing : List Site),
      (Closure.synthesize report.graph report.defined).Does closing
        (.ok ⟨report.edges, report.exclusions⟩) ∧
      ∀ scope, (stages settings units).Performs scope (charges units closing report.edges)
        (.ok report) := by
  obtain ⟨d, g, closing, c, emission, -, -, hclosure, hstages⟩ := exists_stages settings hread
  exact ⟨⟨d, g, c.edges, c.exclusions, _, emission, _⟩, closing, hclosure, hstages⟩

end Pass

end ConversionClosure
