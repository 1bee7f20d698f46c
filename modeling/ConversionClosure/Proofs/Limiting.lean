/-
What the limit of the work budget and the clock do to a pass.

The charges of a pass and its report are the same under every limit and by every clock
(`Pass.exists_performs`), so these only say whether the pass gets to its end.  It does if no tick is
cut short.  Otherwise the pass ends at the first one that is, and says where that was.  By a clock
that does not reach the deadline, that is the charge that reaches the limit.

A pass over files has two budgets of this kind, one for loading the files and a fresh one for
everything after that.  Both have the limit of the settings, and nothing adds them up.
-/
import ConversionClosure.Proofs.Loading
import ConversionClosure.Proofs.Rearranging

namespace ConversionClosure.Pass

open Metered

variable {settings : Settings} {units : List SourceUnit} {report : Report}

/-! ### A pass over units -/

/-- **A pass gives its report, or ends at the first tick that is cut short.**  What it charges and
what it reports are the same under every limit and by every clock. -/
theorem run_or_cut (settings : Settings) (hread : ∀ unit ∈ units, unit.IsRead) :
    ∃ (report : Report) (closing : List Site),
      (Closure.synthesize report.graph report.defined).Does closing
        (.ok ⟨report.edges, report.exclusions⟩) ∧
      ∀ (limit : Nat) (clock : Clock), 0 < limit → 0 ≤ settings.timeoutMs →
        ((settings.timer clock).Allows limit 0 (charges units closing report.edges).length ∧
          run { settings with workLimit := limit } units clock = .ok report) ∨
        ∃ n stage site, (charges units closing report.edges)[n]? = some (stage, site) ∧
          (settings.timer clock).Allows limit 0 n ∧
          (settings.timer clock).stops limit (n + 1) = true ∧
          run { settings with workLimit := limit } units clock =
            .error (.timeout ⟨stage, some site, n + 1, decide (limit ≤ n + 1)⟩) := by
  obtain ⟨report, closing, hclosure, hstages⟩ := exists_performs settings hread
  refine ⟨report, closing, hclosure, fun limit clock hlimit htime => ?_⟩
  rw [@run_eq { settings with workLimit := limit } units clock (by simpa using hlimit) htime]
  -- the limit is in the budget alone, so the stages are those of the settings at hand
  have hperforms := hstages (settings.scope .unscoped clock)
  rcases (settings.timer clock).allows_or_stops limit 0
    (charges units closing report.edges).length with hallows | ⟨n, -, hn, hallows, hstops⟩
  · obtain ⟨b, hb⟩ := hperforms.completes (b := { limit }) (by simpa [Settings.scope] using hallows)
    exact Or.inl ⟨hallows, congrArg Prod.fst hb⟩
  · have hat := List.getElem?_eq_getElem hn
    obtain ⟨b, hb⟩ := hperforms.ends (b := { limit }) (i := n)
      (by simpa [Settings.scope] using hallows) hat (by simpa [Settings.scope] using hstops)
    rw [Nat.zero_add] at hb
    exact Or.inr ⟨n, _, _, hat, hallows, hstops, congrArg Prod.fst hb⟩

/-- **The limit truncates a pass and never changes its result**, by any clock that does not reach
the deadline. -/
theorem run_truncated (settings : Settings) (hread : ∀ unit ∈ units, unit.IsRead) :
    ∃ (report : Report) (closing : List Site),
      (Closure.synthesize report.graph report.defined).Does closing
        (.ok ⟨report.edges, report.exclusions⟩) ∧
      ∀ (limit : Nat) (clock : Clock), 0 < limit →
        (∀ n, (settings.timer clock).expired n = false) →
        ((charges units closing report.edges).length < limit →
          run { settings with workLimit := limit } units clock = .ok report) ∧
        (limit ≤ (charges units closing report.edges).length →
          ∃ stage site, (charges units closing report.edges)[limit - 1]? = some (stage, site) ∧
            run { settings with workLimit := limit } units clock =
              .error (.timeout ⟨stage, some site, limit, true⟩)) := by
  obtain ⟨report, closing, hclosure, hcut⟩ := run_or_cut settings hread
  refine ⟨report, closing, hclosure, fun limit clock hlimit hopen => ?_⟩
  have htime : 0 ≤ settings.timeoutMs := Int.le_of_lt (Settings.timeoutMs_pos (hopen 0))
  rcases hcut limit clock hlimit htime with ⟨hallows, hrun⟩ |
    ⟨n, stage, site, hat, hallows, hstops, hrun⟩
  · refine ⟨fun _ => hrun, fun hreach => ?_⟩
    have hroom := (Timer.allows_iff.mp hallows).2 (by omega)
    omega
  · -- without the deadline, the tick that is cut short is the one that reaches the limit
    have hreached : limit ≤ n + 1 := by simpa [Timer.stops, hopen] using hstops
    have hbelow := (Timer.allows_iff.mp hallows).2
    obtain rfl : limit = n + 1 := by omega
    have hn : n < (charges units closing report.edges).length :=
      (List.getElem?_eq_some_iff.mp hat).1
    refine ⟨fun hroom => by omega, fun _ => ⟨stage, site, hat, ?_⟩⟩
    rwa [decide_eq_true (Nat.le_refl (n + 1))] at hrun

/-- The halves of a conversion under a limit of three: the third charge is the first one of the
registry. -/
theorem run_truncated_halves :
    run { workLimit := 3 } [firstHalf, secondHalf] =
      .error (.timeout ⟨"registry", some .buildGraph, 3, true⟩) := by
  obtain ⟨report, closing, -, htruncated⟩ := run_truncated {} isRead_halves
  have hlength : 3 ≤ (charges [firstHalf, secondHalf] closing report.edges).length := by
    simp only [charges, chargesOf, List.length_append, List.length_map, List.length_replicate]
    exact Nat.le_trans (by decide) (Nat.add_le_add_left (Nat.le_add_right _ _) 2)
  obtain ⟨stage, site, hcharge, hrun⟩ :=
    (htruncated 3 .still (by decide) (Settings.expired_still (by decide))).2 hlength
  obtain ⟨rfl, rfl⟩ : "registry" = stage ∧ Site.buildGraph = site :=
    Prod.mk.inj (Option.some.inj hcharge)
  exact hrun

/-! ### A pass over files -/

section Files

variable {ls : Languages} {fs : FileSystem} {name : Option String} {paths : List Path}
  {clocks : Clocks} {loaded passed : Budget}

/-- A report on files is a report on the units that were loaded from them. -/
theorem runPaths_eq_ok_iff : runPaths settings ls fs name paths clocks = .ok report ↔
    ∃ units loaded passed,
      loadMetered settings ls fs name paths clocks.loading = .ok (.ok units, loaded) ∧
      runMetered settings units clocks.running = .ok (.ok report, passed) := by
  constructor
  · intro h
    unfold runPaths run at h
    rcases hload : loadMetered settings ls fs name paths clocks.loading with
      _ | ⟨_ | units, loaded⟩ <;> rw [hload] at h
    · cases h
    · cases h
    change (runMetered settings units clocks.running >>= fun r => r.1) = .ok report at h
    rcases hrun : runMetered settings units clocks.running with _ | ⟨r, passed⟩ <;> rw [hrun] at h
    · cases h
    · obtain rfl : r = .ok report := h
      exact ⟨units, loaded, passed, rfl, hrun⟩
  · rintro ⟨units, loaded, passed, hload, hrun⟩
    rw [runPaths, hload]
    show run settings units clocks.running = _
    rw [run, hrun]
    rfl

/-! What a computation under settings has booked: its charges, all of them and those of each
stage. -/

section Booked

variable {α : Type} {stage : Stage} {x : Metered α} {clock : Clock} {cs : List Charge} {a : α}
  {b : Budget}

theorem total_of_withBudget (hx : x.Performs (settings.scope stage clock) cs (.ok a))
    (h : withBudget settings stage x clock = .ok (.ok a, b)) : b.total = cs.length := by
  obtain ⟨-, -, hrun⟩ := withBudget_eq_ok_iff.mp h
  exact (hx.total_eq hrun).trans (Nat.zero_add _)

theorem spent_of_withBudget (hx : x.Performs (settings.scope stage clock) cs (.ok a))
    (h : withBudget settings stage x clock = .ok (.ok a, b)) (name : String) :
    b.spent name = (cs.map Prod.fst).count name := by
  obtain ⟨-, -, hrun⟩ := withBudget_eq_ok_iff.mp h
  exact (hx.spent_eq hrun name).trans (Nat.zero_add _)

/-- A computation that comes to a result comes to it under every limit above its charges, and under
no other. -/
theorem withBudget_limit_iff (hx : x.Performs (settings.scope stage clock) cs (.ok a))
    (h : withBudget settings stage x clock = .ok (.ok a, b)) (limit : Int) :
    (∃ b', withBudget { settings with workLimit := limit } stage x clock = .ok (.ok a, b')) ↔
      (b.total : Int) < limit := by
  obtain ⟨htime, hpos, hrun⟩ := withBudget_eq_ok_iff.mp h
  have htotal := total_of_withBudget hx h
  have hspend := Timer.allows_iff.mp (hx.runWith_fst_eq_ok_iff.mp (congrArg Prod.fst hrun))
  have hgoes := (hx.runWith_fst_eq_ok_iff (b := { limit := limit.toNat })).trans Timer.allows_iff
  constructor
  · rintro ⟨b', h'⟩
    obtain ⟨-, hpos', hrun'⟩ := withBudget_eq_ok_iff.mp h'
    have hpos' : 0 < limit := hpos'
    have hroom : 0 < 0 + cs.length → 0 + cs.length < limit.toNat :=
      (hgoes.mp (congrArg Prod.fst hrun')).2
    omega
  · intro hlimit
    have hroom : 0 < 0 + cs.length → 0 + cs.length < limit.toNat := by omega
    exact ⟨_, withBudget_eq_ok_iff.mpr
      ⟨htime, show 0 < limit by omega, Prod.ext (hgoes.mpr ⟨hspend.1, hroom⟩) rfl⟩⟩

/-- By another clock, a computation comes to its result as well, or it ends with a time-out. -/
theorem withBudget_clock (hx : x.Performs (settings.scope stage clock) cs (.ok a))
    (htime : 0 ≤ settings.timeoutMs) (hlimit : 0 < settings.workLimit) :
    ∃ b, withBudget settings stage x clock = .ok (.ok a, b) ∨
      ∃ t, withBudget settings stage x clock = .ok (.error (.timeout t), b) := by
  refine ⟨(x.runWith (settings.scope stage clock) settings.budget).2, ?_⟩
  simp only [withBudget_eq_ok_iff, htime, hlimit, true_and]
  rcases hx.fst_eq_or_timeout settings.budget with hok | ⟨t, ht⟩
  · exact Or.inl (Prod.ext hok rfl)
  · exact Or.inr ⟨t, Prod.ext ht rfl⟩

end Booked

theorem count_charged (stage stage' : String) (sites : List Site) :
    ((sites.map fun site => (stage, site)).map Prod.fst).count stage' =
      if stage = stage' then sites.length else 0 := by
  rw [List.map_map]
  show (sites.map fun _ => stage).count stage' = _
  rw [List.map_const', List.count_replicate]
  simp only [beq_iff_eq]

/-- Each charge of a pass is one of a single stage. -/
theorem length_chargesOf (units declared closing written : List Site) :
    (chargesOf units declared closing written).length =
      ((chargesOf units declared closing written).map Prod.fst).count Stage.catalog.text +
        ((chargesOf units declared closing written).map Prod.fst).count Stage.registry.text +
        ((chargesOf units declared closing written).map Prod.fst).count Stage.closure.text +
        ((chargesOf units declared closing written).map Prod.fst).count Stage.emission.text := by
  simp [chargesOf, -List.map_map, count_charged, Stage.text, Nat.add_assoc]

/-- Loading books all its ticks under its own stage. -/
theorem total_loaded {clock : Clock}
    (h : loadMetered settings ls fs name paths clock = .ok (.ok units, loaded)) :
    loaded.total = loaded.spent Stage.load.text := by
  obtain ⟨sites, outcome, hload⟩ := SourceUnit.loadAll_steady ls fs name paths
  obtain ⟨-, -, hrun⟩ := withBudget_eq_ok_iff.mp h
  obtain rfl := hload.eq_of_runWith hrun
  rw [total_of_withBudget (hload _) h, spent_of_withBudget (hload _) h]
  exact (List.length_map _).trans (by rw [count_charged]; exact (if_pos rfl).symm)

/-- A pass over units books all its ticks under its four stages. -/
theorem total_passed {clock : Clock} (hread : ∀ unit ∈ units, unit.IsRead)
    (h : runMetered settings units clock = .ok (.ok report, passed)) :
    passed.total = passed.spent Stage.catalog.text + passed.spent Stage.registry.text +
      passed.spent Stage.closure.text + passed.spent Stage.emission.text := by
  obtain ⟨_, closing, -, hstages⟩ := exists_performs settings hread
  obtain ⟨-, -, hrun⟩ := withBudget_eq_ok_iff.mp h
  obtain rfl := Except.ok.inj ((hstages _).eq_of_runWith hrun)
  simp only [total_of_withBudget (hstages _) h, spent_of_withBudget (hstages _) h]
  exact length_chargesOf _ _ _ _

/-- **A report on files shows that two budgets held, each of them with the whole limit**: one for
loading and one for the stages after it.  The report is the same under every limit above the ticks
of each of the two, and under no other. -/
theorem runPaths_limited (h : runPaths settings ls fs name paths clocks = .ok report) :
    ∃ units loaded passed,
      loadMetered settings ls fs name paths clocks.loading = .ok (.ok units, loaded) ∧
      runMetered settings units clocks.running = .ok (.ok report, passed) ∧
      loaded.total = loaded.spent Stage.load.text ∧
      passed.total = passed.spent Stage.catalog.text + passed.spent Stage.registry.text +
        passed.spent Stage.closure.text + passed.spent Stage.emission.text ∧
      (loaded.total : Int) < settings.workLimit ∧ (passed.total : Int) < settings.workLimit ∧
      ∀ limit : Int,
        runPaths { settings with workLimit := limit } ls fs name paths clocks = .ok report ↔
          (loaded.total : Int) < limit ∧ (passed.total : Int) < limit := by
  obtain ⟨units, loaded, passed, hload, hpass⟩ := runPaths_eq_ok_iff.mp h
  have hread : ∀ unit ∈ units, unit.IsRead :=
    SourceUnit.isRead_of_loadAll (withBudget_eq_ok_iff.mp hload).2.2
  obtain ⟨sites, outcome, hloads⟩ := SourceUnit.loadAll_steady ls fs name paths
  obtain ⟨_, closing, -, hstages⟩ := exists_performs settings hread
  obtain rfl := hloads.eq_of_runWith (withBudget_eq_ok_iff.mp hload).2.2
  obtain rfl := (Except.ok.inj ((hstages _).eq_of_runWith (withBudget_eq_ok_iff.mp hpass).2.2)).symm
  have hlimits : ∀ limit : Int,
      runPaths { settings with workLimit := limit } ls fs name paths clocks = .ok report ↔
        (loaded.total : Int) < limit ∧ (passed.total : Int) < limit := by
    intro limit
    rw [← withBudget_limit_iff (hloads _) hload limit,
      ← withBudget_limit_iff (hstages _) hpass limit, runPaths_eq_ok_iff]
    constructor
    · rintro ⟨units', loaded', passed', hload', hpass'⟩
      -- what is loaded does not depend on the limit
      obtain rfl := Except.ok.inj (hloads.eq_of_runWith (withBudget_eq_ok_iff.mp hload').2.2)
      exact ⟨⟨loaded', hload'⟩, ⟨passed', hpass'⟩⟩
    · rintro ⟨⟨loaded', hload'⟩, ⟨passed', hpass'⟩⟩
      exact ⟨units, loaded', passed', hload', hpass'⟩
  obtain ⟨hbelow, hbelow'⟩ := (hlimits settings.workLimit).mp h
  exact ⟨units, loaded, passed, hload, hpass, total_loaded hload, total_passed hread hpass,
    hbelow, hbelow', hlimits⟩

/-- **A clock never changes a report.**  By other clocks a pass over files gives the same report, or
it ends with a time-out. -/
theorem runPaths_clocks (h : runPaths settings ls fs name paths clocks = .ok report)
    (clocks' : Clocks) : runPaths settings ls fs name paths clocks' = .ok report ∨
      ∃ t, runPaths settings ls fs name paths clocks' = .error (.timeout t) := by
  obtain ⟨units, loaded, passed, hload, hpass⟩ := runPaths_eq_ok_iff.mp h
  obtain ⟨htime, hlimit, hloaded⟩ := withBudget_eq_ok_iff.mp hload
  have hread : ∀ unit ∈ units, unit.IsRead := SourceUnit.isRead_of_loadAll hloaded
  obtain ⟨sites, outcome, hloads⟩ := SourceUnit.loadAll_steady ls fs name paths
  obtain ⟨_, closing, -, hstages⟩ := exists_performs settings hread
  obtain rfl := hloads.eq_of_runWith hloaded
  obtain rfl := (Except.ok.inj ((hstages _).eq_of_runWith (withBudget_eq_ok_iff.mp hpass).2.2)).symm
  obtain ⟨loaded', hload' | ⟨t, hload'⟩⟩ :=
    withBudget_clock (hloads (settings.scope .load clocks'.loading)) htime hlimit
  · obtain ⟨passed', hpass' | ⟨t, hpass'⟩⟩ :=
      withBudget_clock (hstages (settings.scope .unscoped clocks'.running)) htime hlimit
    · exact Or.inl (runPaths_eq_ok_iff.mpr ⟨units, loaded', passed', hload', hpass'⟩)
    · refine Or.inr ⟨t, ?_⟩
      rw [runPaths, loadMetered, hload']
      show run settings units clocks'.running = _
      rw [run, runMetered, hpass']
      rfl
  · refine Or.inr ⟨t, ?_⟩
    rw [runPaths, loadMetered, hload']
    rfl

/-! One file that declares a type: there is a report on it under a limit of three, which takes one
tick for loading the file and two after that. -/

def oneFile : FileSystem := { nodes := [(["a.rs"], .file (Utf8.encode "struct A;"))] }

def oneUnit : SourceUnit := { path := .ofText "a.rs", types := [{ name := "A" }] }

theorem loadMetered_oneFile :
    loadMetered { workLimit := 3 } .builtIn oneFile none [.ofText "a.rs"] =
      .ok (.ok [oneUnit], ⟨3, 1, [("load", 1)]⟩) := by
  decide +kernel

theorem exists_runMetered_oneUnit : ∃ report, runMetered { workLimit := 3 } [oneUnit] =
    .ok (.ok report, ⟨3, 2, [("catalog", 1), ("registry", 1)]⟩) := by
  have hrun : ((runMetered { workLimit := 3 } [oneUnit]).toOption.bind fun r =>
      r.1.toOption.map fun _ => r.2) = some ⟨3, 2, [("catalog", 1), ("registry", 1)]⟩ := by
    decide +kernel
  generalize runMetered { workLimit := 3 } [oneUnit] = r at hrun
  rcases r with _ | ⟨_ | report, b⟩
  · cases hrun
  · cases hrun
  · cases hrun
    exact ⟨report, rfl⟩

theorem runPaths_over_limit_oneFile : ∃ report loaded passed,
    runPaths { workLimit := 3 } .builtIn oneFile none [.ofText "a.rs"] = .ok report ∧
    loadMetered { workLimit := 3 } .builtIn oneFile none [.ofText "a.rs"] =
      .ok (.ok [oneUnit], loaded) ∧
    runMetered { workLimit := 3 } [oneUnit] = .ok (.ok report, passed) ∧
    loaded.total = 1 ∧ passed.total = 2 ∧ ¬ loaded.total + passed.total < 3 := by
  obtain ⟨report, hpass⟩ := exists_runMetered_oneUnit
  exact ⟨report, _, _, runPaths_eq_ok_iff.mpr ⟨_, _, _, loadMetered_oneFile, hpass⟩,
    loadMetered_oneFile, hpass, rfl, rfl, by decide⟩

theorem runPaths_limited_oneFile : ∃ report,
    runPaths { workLimit := 3 } .builtIn oneFile none [.ofText "a.rs"] = .ok report ∧
    ∀ limit : Int, runPaths { workLimit := limit } .builtIn oneFile none [.ofText "a.rs"] =
      .ok report ↔ 2 < limit := by
  obtain ⟨report, hpass⟩ := exists_runMetered_oneUnit
  have hrun : runPaths { workLimit := 3 } .builtIn oneFile none [.ofText "a.rs"] = .ok report :=
    runPaths_eq_ok_iff.mpr ⟨_, _, _, loadMetered_oneFile, hpass⟩
  obtain ⟨units, loaded, passed, hload', hpass', -, -, -, -, hlimit⟩ := runPaths_limited hrun
  obtain ⟨rfl, rfl⟩ : [oneUnit] = units ∧ ⟨3, 1, [("load", 1)]⟩ = loaded := by
    simpa using loadMetered_oneFile.symm.trans hload'
  obtain rfl : ⟨3, 2, [("catalog", 1), ("registry", 1)]⟩ = passed := by
    simpa using hpass.symm.trans hpass'
  refine ⟨report, hrun, fun limit => (hlimit limit).trans ?_⟩
  show (1 : Int) < limit ∧ (2 : Int) < limit ↔ _
  omega

end Files

end ConversionClosure.Pass
