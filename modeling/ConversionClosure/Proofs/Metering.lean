/-
What a metered computation does, whatever its budget and its clock.

A metered computation never looks at its budget, nor at the clock.  So it makes a list of charges
and comes to an outcome, both of them the same under every budget and every clock, and these decide
only whether one of the charges is cut short.  `Performs` says so of one computation in one scope,
and `Does` of one that stays in the stage it is run in.

With that, two questions about a computation come apart.  What it comes to is a question about
its outcome alone.  Whether it comes to it at all is a question about the budget and the clock:
`Timer.Allows` says when no charge is cut short, and of several the first one that is ends
everything.

A loop is the one computation that may have no charges to list, since without a budget it may
go on for ever.  `Iterates` says that it does not.
-/
import ConversionClosure.Work.Metered

namespace ConversionClosure

namespace Budget

theorem ofLimit_int (n : Int) : ofLimit (.int n) =
    if n ≤ 0 then .error (.broken (.workLimit (toString n))) else .ok { limit := n.toNat } := by
  show (if n ≤ 0 then _ else _ : Except Fault Budget) = _
  split
  · rfl
  · rfl

theorem lookup_book (stage stage' : String) (ticks : Nat) (ledger : List (String × Nat)) :
    ((book stage ticks ledger).lookup stage').getD 0 =
      (ledger.lookup stage').getD 0 + if stage = stage' then ticks else 0 := by
  induction ledger with
  | nil =>
      by_cases h : stage = stage'
      · simp [book, h]
      · simp [book, h, List.lookup_cons, beq_false_of_ne (Ne.symm h)]
  | cons entry ledger ih =>
      obtain ⟨s, n⟩ := entry
      rw [book]
      by_cases hs : s = stage
      · subst hs
        by_cases h : s = stage'
        · simp [h]
        · simp [h, List.lookup_cons, beq_false_of_ne (Ne.symm h)]
      · rw [if_neg hs]
        by_cases h : s = stage'
        · subst h
          simp [Ne.symm hs]
        · simpa [List.lookup_cons, beq_false_of_ne (Ne.symm h)] using ih

/-- Recorded ticks are booked under their own stage. -/
theorem spent_record (b : Budget) (stage stage' : String) (ticks : Nat) :
    (b.record stage ticks).spent stage' =
      b.spent stage' + if stage = stage' then ticks else 0 :=
  lookup_book stage stage' ticks b.ledger

end Budget

/-- A tick as it is booked: its stage and its site. -/
abbrev Charge := String × Site

/-! ### Time -/

namespace Timer

variable {t : Timer} {limit m n : Nat}

/-- The tick that brings the total to `n` is cut short: it reaches the limit, or it comes after the
deadline. -/
def stops (t : Timer) (limit n : Nat) : Bool := decide (limit ≤ n) || t.expired n

/-- No tick that brings a total of `m` up to `n` is cut short. -/
def Allows (t : Timer) (limit m n : Nat) : Prop := ∀ k, m < k → k ≤ n → t.stops limit k = false

theorem allows_self : t.Allows limit m m := fun _ hlt hle => absurd hlt (Nat.not_lt.mpr hle)

/-- The first tick of several is allowed, and so are those after it. -/
theorem allows_iff_head (h : m < n) :
    t.Allows limit m n ↔ t.stops limit (m + 1) = false ∧ t.Allows limit (m + 1) n := by
  constructor
  · intro hallows
    exact ⟨hallows (m + 1) (Nat.lt_succ_self m) h, fun k hk hkn => hallows k (by omega) hkn⟩
  · rintro ⟨hfirst, hrest⟩ k hk hkn
    rcases Nat.eq_or_lt_of_le hk with rfl | hlt
    · exact hfirst
    · exact hrest k hlt hkn

/-- Ticks are allowed while there is time, and the last of them stays below the limit. -/
theorem allows_iff : t.Allows limit m n ↔
    (∀ k, m < k → k ≤ n → t.expired k = false) ∧ (m < n → n < limit) := by
  simp only [Allows, stops, Bool.or_eq_false_iff, decide_eq_false_iff_not, Nat.not_le]
  constructor
  · exact fun h => ⟨fun k hk hkn => (h k hk hkn).2, fun hmn => (h n hmn (Nat.le_refl n)).1⟩
  · exact fun h k hk hkn => ⟨Nat.lt_of_le_of_lt hkn (h.2 (by omega)), h.1 k hk hkn⟩

theorem allows_of_lt (htime : ∀ k, t.expired k = false) (h : n < limit) : t.Allows limit m n :=
  allows_iff.mpr ⟨fun k _ _ => htime k, fun _ => h⟩

/-- Either all ticks are allowed, or one of them is the first that is not. -/
theorem allows_or_stops (t : Timer) (limit m n : Nat) : t.Allows limit m n ∨
    ∃ k, m ≤ k ∧ k < n ∧ t.Allows limit m k ∧ t.stops limit (k + 1) = true := by
  induction n with
  | zero => exact Or.inl fun k hk hk0 => by omega
  | succ n ih =>
      rcases ih with hallows | ⟨k, hmk, hkn, hk⟩
      · by_cases hstops : m ≤ n ∧ t.stops limit (n + 1) = true
        · exact Or.inr ⟨n, hstops.1, Nat.lt_succ_self n, hallows, hstops.2⟩
        · refine Or.inl fun k hk hkn => ?_
          rcases Nat.eq_or_lt_of_le hkn with rfl | hlt
          · exact Bool.eq_false_iff.mpr fun hcut => hstops ⟨by omega, hcut⟩
          · exact hallows k hk (by omega)
      · exact Or.inr ⟨k, hmk, by omega, hk⟩

end Timer

/-- A deadline of some time is never over by a clock that stands still. -/
theorem Deadline.expired_still {d : Deadline} (h : 0 < d.milliseconds) (n : Nat) :
    Timer.expired d n = false := by
  show decide (d.milliseconds * 1000000 ≤ 0) = false
  rw [decide_eq_false_iff_not]
  omega

/-- A stage that has some time, by a clock that stands still. -/
def Scope.unhurried (stage : Stage) : Scope := ⟨stage.text, ({ milliseconds := 1 } : Deadline)⟩

theorem Scope.expired_unhurried (stage : Stage) (n : Nat) :
    (unhurried stage).timer.expired n = false := Deadline.expired_still (by decide) n

/-! ### Charges -/

/-- Some charges one after the other: the time-out that one of them leads to, and the budget
then. -/
def spend (timer : Timer) : List Charge → Budget → Option Timeout × Budget
  | [], b => (none, b)
  | (stage, site) :: rest, b =>
    match Scope.verdict ⟨stage, timer⟩ (some site) (b.record stage 1) with
    | some t => (some t, b.record stage 1)
    | none => spend timer rest (b.record stage 1)

theorem spend_append (timer : Timer) (cs ds : List Charge) (b : Budget) :
    spend timer (cs ++ ds) b =
      match spend timer cs b with
      | (some t, b') => (some t, b')
      | (none, b') => spend timer ds b' := by
  induction cs generalizing b with
  | nil => rfl
  | cons c rest ih =>
      obtain ⟨stage, site⟩ := c
      rw [List.cons_append, spend, spend]
      cases Scope.verdict ⟨stage, timer⟩ (some site) (b.record stage 1) with
      | some t => rfl
      | none => exact ih _

/-- One tick is cut short by the limit, or else by the deadline, or not at all. -/
theorem verdict_record {stage : String} {site : Option Site} {timer : Timer} {b : Budget} :
    Scope.verdict ⟨stage, timer⟩ site (b.record stage 1) =
      if timer.stops b.limit (b.total + 1) then
        some ⟨stage, site, b.total + 1, decide (b.limit ≤ b.total + 1)⟩
      else none := by
  simp only [Scope.verdict, Budget.isExhausted, Timer.stops, Budget.total_record,
    Budget.limit_record]
  by_cases hlimit : b.limit ≤ b.total + 1
  · simp [hlimit]
  · simp only [hlimit, decide_false, Bool.false_or, Bool.false_eq_true, if_false]
    rfl

section Spend

variable {timer : Timer} {cs : List Charge} {b b' : Budget} {stage : String} {site : Site}

/-- Charges go through when none of their ticks is cut short, and only then. -/
theorem spend_fst_eq_none_iff :
    (spend timer cs b).1 = none ↔ timer.Allows b.limit b.total (b.total + cs.length) := by
  induction cs generalizing b with
  | nil => exact iff_of_true rfl Timer.allows_self
  | cons c rest ih =>
      obtain ⟨stage, site⟩ := c
      rw [spend, verdict_record, List.length_cons, Timer.allows_iff_head (by omega)]
      cases hstops : timer.stops b.limit (b.total + 1) with
      | true => simp
      | false =>
          have hend : b.total + 1 + rest.length = b.total + (rest.length + 1) := by omega
          simpa [hend] using @ih (b.record stage 1)

/-- Charges whose ticks are not cut short go through. -/
theorem spend_of_allows (h : timer.Allows b.limit b.total (b.total + cs.length)) :
    ∃ b', spend timer cs b = (none, b') :=
  ⟨_, Prod.ext (spend_fst_eq_none_iff.mpr h) rfl⟩

/-- The first charge whose tick is cut short ends everything. -/
theorem spend_of_stops {i : Nat} (hallows : timer.Allows b.limit b.total (b.total + i))
    (hat : cs[i]? = some (stage, site)) (hstops : timer.stops b.limit (b.total + i + 1) = true) :
    ∃ b', spend timer cs b =
      (some ⟨stage, some site, b.total + i + 1, decide (b.limit ≤ b.total + i + 1)⟩, b') := by
  induction cs generalizing b i with
  | nil => simp at hat
  | cons c rest ih =>
      obtain ⟨stage', site'⟩ := c
      rw [spend, verdict_record]
      cases i with
      | zero =>
          obtain ⟨rfl, rfl⟩ : stage' = stage ∧ site' = site := by simpa using hat
          rw [Nat.add_zero] at hstops ⊢
          rw [if_pos hstops]
          exact ⟨_, rfl⟩
      | succ i =>
          obtain ⟨hfirst, hrest⟩ := (Timer.allows_iff_head (by omega)).mp hallows
          have hnext : b.total + (i + 1) = b.total + 1 + i := by omega
          rw [hnext] at hrest hstops ⊢
          rw [if_neg (by simp [hfirst])]
          exact @ih (b.record stage' 1) i hrest (by simpa using hat) hstops

/-- Charges that go through are all booked. -/
theorem total_of_spend (h : spend timer cs b = (none, b')) :
    b'.total = b.total + cs.length := by
  induction cs generalizing b with
  | nil =>
      obtain rfl : b = b' := (Prod.mk.inj h).2
      rfl
  | cons c rest ih =>
      obtain ⟨stage, site⟩ := c
      rw [spend] at h
      split at h
      · cases h
      · rw [ih h, Budget.total_record, List.length_cons]
        omega

/-- Charges that are cut short are booked up to the one that is. -/
theorem total_spend_le : (spend timer cs b).2.total ≤ b.total + cs.length := by
  induction cs generalizing b with
  | nil => exact Nat.le_refl _
  | cons c rest ih =>
      obtain ⟨stage, site⟩ := c
      rw [spend, List.length_cons]
      split
      · rw [Budget.total_record]
        omega
      · have hrest := @ih (b.record stage 1)
        rw [Budget.total_record] at hrest
        omega

/-- Charges that go through are booked under their stages. -/
theorem spent_of_spend (h : spend timer cs b = (none, b')) (stage : String) :
    b'.spent stage = b.spent stage + (cs.map Prod.fst).count stage := by
  induction cs generalizing b with
  | nil =>
      obtain rfl : b = b' := (Prod.mk.inj h).2
      rfl
  | cons c rest ih =>
      obtain ⟨stage', site⟩ := c
      rw [spend] at h
      split at h
      · cases h
      · rw [ih h, Budget.spent_record, List.map_cons, List.count_cons]
        simp only [beq_iff_eq]
        omega

end Spend

namespace Metered

variable {α β : Type} {x : Metered α} {f : α → Metered β} {scope : Scope} {b b' : Budget}
  {cs ds : List Charge}

/-! ### Running the parts of a computation -/

theorem runWith_bind :
    (x >>= f).runWith scope b =
      match x.runWith scope b with
      | (.ok a, b') => (f a).runWith scope b'
      | (.error fault, b') => (.error fault, b') := by
  show (ExceptT.bindCont (fun a => f a scope) (x scope b).1) (x scope b).2 = _
  unfold runWith
  rcases x scope b with ⟨_ | a, b'⟩
  · rfl
  · rfl

/-- A run of two parts that comes to a result is a run of the first part and one of the second. -/
theorem exists_of_runWith_bind {r : β} (h : (x >>= f).runWith scope b = (.ok r, b')) :
    ∃ a b₁, x.runWith scope b = (.ok a, b₁) ∧ (f a).runWith scope b₁ = (.ok r, b') := by
  rw [runWith_bind] at h
  split at h
  · rename_i a b₁ hx
    exact ⟨a, b₁, hx, h⟩
  · cases h

theorem runWith_tick (site : Site) :
    (tick site).runWith scope b =
      match scope.verdict (some site) (b.record scope.stage 1) with
      | some t => (.error (.timeout t), b.record scope.stage 1)
      | none => (.ok (), b.record scope.stage 1) := by
  unfold tick
  simp only [runWith_bind]
  show (match scope.verdict (some site) (b.record scope.stage 1) with
    | some t => throw (.timeout t)
    | none => pure () : Metered Unit).runWith scope (b.record scope.stage 1) = _
  cases scope.verdict (some site) (b.record scope.stage 1) with
  | some t => rfl
  | none => rfl

/-- A computation that also carries a state, when the part at hand does not look at it. -/
theorem run_liftM {σ : Type} (x : Metered α) (s : σ) :
    (liftM x : StateT σ Metered α).run s = x >>= fun a => pure (a, s) := rfl

/-! ### Charges and outcome -/

/-- In a scope, the computation makes some charges and comes to an outcome, unless a charge cuts
it short. -/
def Performs (x : Metered α) (scope : Scope) (cs : List Charge) (outcome : Except Fault α) :
    Prop :=
  ∀ b, x.runWith scope b =
    match spend scope.timer cs b with
    | (some t, b') => (.error (.timeout t), b')
    | (none, b') => (outcome, b')

namespace Performs

variable {outcome : Except Fault α}

theorem pure (a : α) : (pure a : Metered α).Performs scope [] (.ok a) := fun _ => rfl

theorem throw (fault : Fault) : (throw fault : Metered α).Performs scope [] (.error fault) :=
  fun _ => rfl

theorem tick (site : Site) : (Metered.tick site).Performs scope [(scope.stage, site)] (.ok ()) := by
  intro b
  rw [runWith_tick, spend]
  cases scope.verdict (some site) (b.record scope.stage 1) with
  | some t => rfl
  | none => rfl

theorem bind {a : α} {last : Except Fault β} (hx : x.Performs scope cs (.ok a))
    (hf : (f a).Performs scope ds last) : (x >>= f).Performs scope (cs ++ ds) last := by
  intro b
  rw [runWith_bind, hx b, spend_append]
  rcases spend scope.timer cs b with ⟨_ | t, b'⟩
  · exact hf b'
  · rfl

/-- What a run comes to is what the computation comes to. -/
theorem eq_of_runWith {a : α} (h : x.Performs scope cs outcome)
    (hrun : x.runWith scope b = (.ok a, b')) : outcome = .ok a := by
  rw [h b] at hrun
  split at hrun
  · exact absurd (Prod.mk.inj hrun).1 (by simp)
  · exact (Prod.mk.inj hrun).1

/-- A run comes to the outcome unless a charge cuts it short. -/
theorem fst_eq_or_timeout (h : x.Performs scope cs outcome) (b : Budget) :
    (x.runWith scope b).1 = outcome ∨ ∃ t, (x.runWith scope b).1 = .error (.timeout t) := by
  rw [h b]
  rcases spend scope.timer cs b with ⟨_ | t, b'⟩
  · exact Or.inl rfl
  · exact Or.inr ⟨t, rfl⟩

/-- Two computations that make the same charges come both to their results, or both are cut short by
the same charge. -/
theorem both {y : Metered β} {a : α} {a' : β} (hx : x.Performs scope cs (.ok a))
    (hy : y.Performs scope cs (.ok a')) (b : Budget) :
    ((x.runWith scope b).1 = .ok a ∧ (y.runWith scope b).1 = .ok a') ∨
      ∃ t, (x.runWith scope b).1 = .error (.timeout t) ∧
        (y.runWith scope b).1 = .error (.timeout t) := by
  rw [hx b, hy b]
  rcases spend scope.timer cs b with ⟨_ | t, b'⟩
  · exact Or.inl ⟨rfl, rfl⟩
  · exact Or.inr ⟨t, rfl, rfl⟩

/-- Where no tick is cut short, the computation comes to its outcome. -/
theorem completes (h : x.Performs scope cs outcome)
    (hallows : scope.timer.Allows b.limit b.total (b.total + cs.length)) :
    ∃ b', x.runWith scope b = (outcome, b') := by
  obtain ⟨b', hb'⟩ := spend_of_allows hallows
  exact ⟨b', by rw [h b, hb']⟩

/-- The first tick that is cut short ends the computation. -/
theorem ends (h : x.Performs scope cs outcome) {i : Nat} {stage : String} {site : Site}
    (hallows : scope.timer.Allows b.limit b.total (b.total + i))
    (hat : cs[i]? = some (stage, site))
    (hstops : scope.timer.stops b.limit (b.total + i + 1) = true) :
    ∃ b', x.runWith scope b = (.error (.timeout
      ⟨stage, some site, b.total + i + 1, decide (b.limit ≤ b.total + i + 1)⟩), b') := by
  obtain ⟨b', hb'⟩ := spend_of_stops hallows hat hstops
  exact ⟨b', by rw [h b, hb']⟩

/-- The computation comes to its result when no tick is cut short, and only then. -/
theorem runWith_fst_eq_ok_iff {a : α} (h : x.Performs scope cs (.ok a)) :
    (x.runWith scope b).1 = .ok a ↔
      scope.timer.Allows b.limit b.total (b.total + cs.length) := by
  rw [← spend_fst_eq_none_iff, h b]
  rcases spend scope.timer cs b with ⟨_ | t, b'⟩
  · simp
  · simp

/-- No charge cuts short a run that comes to a result. -/
theorem spend_of_runWith {a : α} (h : x.Performs scope cs outcome)
    (hrun : x.runWith scope b = (.ok a, b')) : spend scope.timer cs b = (none, b') := by
  rw [h b] at hrun
  split at hrun
  · cases hrun
  · rename_i b₁ hspend
    obtain rfl : b₁ = b' := (Prod.mk.inj hrun).2
    exact hspend

/-- A run that comes to a result has booked all charges. -/
theorem total_eq {a : α} (h : x.Performs scope cs outcome)
    (hrun : x.runWith scope b = (.ok a, b')) : b'.total = b.total + cs.length :=
  total_of_spend (h.spend_of_runWith hrun)

/-- No run books more than all charges. -/
theorem total_le (h : x.Performs scope cs outcome) (b : Budget) :
    (x.runWith scope b).2.total ≤ b.total + cs.length := by
  have hle : (spend scope.timer cs b).2.total ≤ b.total + cs.length := total_spend_le
  rw [h b]
  split
  · rename_i hspend
    rwa [hspend] at hle
  · rename_i hspend
    rwa [hspend] at hle

/-- It has booked them under their stages. -/
theorem spent_eq {a : α} (h : x.Performs scope cs outcome)
    (hrun : x.runWith scope b = (.ok a, b')) (stage : String) :
    b'.spent stage = b.spent stage + (cs.map Prod.fst).count stage :=
  spent_of_spend (h.spend_of_runWith hrun) stage

end Performs

/-- In every scope, the computation makes charges at some sites and comes to an outcome, unless a
charge cuts it short. -/
def Does (x : Metered α) (sites : List Site) (outcome : Except Fault α) : Prop :=
  ∀ scope, x.Performs scope (sites.map fun site => (scope.stage, site)) outcome

namespace Does

variable {outcome : Except Fault α} {sites sites' : List Site}

theorem pure (a : α) : (pure a : Metered α).Does [] (.ok a) := fun _ => Performs.pure a

theorem throw (fault : Fault) : (throw fault : Metered α).Does [] (.error fault) :=
  fun _ => Performs.throw fault

theorem tick (site : Site) : (Metered.tick site).Does [site] (.ok ()) :=
  fun _ => Performs.tick site

theorem ofExcept (r : Except Fault α) : (liftM r : Metered α).Does [] r := by
  cases r with
  | ok a => exact pure a
  | error fault => exact throw fault

theorem bind {a : α} {last : Except Fault β} (hx : x.Does sites (.ok a))
    (hf : (f a).Does sites' last) : (x >>= f).Does (sites ++ sites') last := by
  intro scope
  rw [List.map_append]
  exact (hx scope).bind (hf scope)

/-- Nothing is done behind a fault. -/
theorem bind_error {fault : Fault} (hx : x.Does sites (.error fault)) :
    (x >>= f).Does sites (.error fault) := by
  intro scope b
  rw [runWith_bind, hx scope b]
  rcases spend scope.timer _ b with ⟨_ | t, b'⟩
  · rfl
  · rfl

/-- A list of computations that each make one charge. -/
theorem mapM {γ : Type} {f : γ → Metered α} {g : γ → α} {site : Site} {as : List γ}
    (h : ∀ a ∈ as, (f a).Does [site] (.ok (g a))) :
    (as.mapM f).Does (List.replicate as.length site) (.ok (as.map g)) := by
  induction as with
  | nil => exact pure []
  | cons a as ih =>
      have hrest : (as.mapM f >>= fun bs => (Pure.pure (g a :: bs) : Metered (List α))).Does
          (List.replicate as.length site) (.ok (g a :: as.map g)) := by
        rw [← List.append_nil (List.replicate as.length site)]
        exact (ih fun b hb => h b (by simp [hb])).bind (pure _)
      rw [List.mapM_cons, List.map_cons, List.length_cons, List.replicate_succ]
      exact (h a (by simp)).bind hrest

/-- A fold in which every step makes the charges of its element, whatever it starts from. -/
theorem foldlM {σ γ : Type} {f : σ → γ → Metered σ} {g : σ → γ → σ} {charges : γ → List Site}
    {as : List γ} (h : ∀ a ∈ as, ∀ s, (f s a).Does (charges a) (.ok (g s a))) (s : σ) :
    (as.foldlM f s).Does (as.flatMap charges) (.ok (as.foldl g s)) := by
  induction as generalizing s with
  | nil => exact pure s
  | cons a as ih =>
      rw [List.foldlM_cons, List.foldl_cons, List.flatMap_cons]
      exact (h a (by simp) s).bind (ih (fun b hb => h b (by simp [hb])) (g s a))

theorem eq_of_runWith {a : α} (h : x.Does sites outcome)
    (hrun : x.runWith scope b = (.ok a, b')) : outcome = .ok a := (h scope).eq_of_runWith hrun

theorem completes (h : x.Does sites outcome)
    (hallows : scope.timer.Allows b.limit b.total (b.total + sites.length)) :
    ∃ b', x.runWith scope b = (outcome, b') :=
  (h scope).completes (by rwa [List.length_map])

/-- Where there is time, a limit above the charges is enough. -/
theorem completes_unhurried (h : x.Does sites outcome) (stage : Stage) (limit : Nat)
    (hroom : sites.length < limit) :
    ∃ b', x.runWith (.unhurried stage) { limit } = (outcome, b') :=
  h.completes (Timer.allows_of_lt (Scope.expired_unhurried stage) (by simpa using hroom))

/-- In a stage of its own, a computation makes its charges in that stage. -/
theorem inStage (h : x.Does sites outcome) (stage : String) :
    (Metered.inStage stage x).Performs scope (sites.map fun site => (stage, site)) outcome :=
  fun b => h { scope with stage } b

end Does

/-- What the computation charges and what it comes to, a result or a fault, are the same in every
scope and under every budget. -/
def IsSteady (x : Metered α) : Prop := ∃ sites outcome, x.Does sites outcome

namespace IsSteady

theorem pure (a : α) : (pure a : Metered α).IsSteady := ⟨_, _, Does.pure a⟩

theorem throw (fault : Fault) : (throw fault : Metered α).IsSteady := ⟨_, _, Does.throw fault⟩

theorem ofExcept (r : Except Fault α) : (liftM r : Metered α).IsSteady := ⟨_, _, Does.ofExcept r⟩

theorem tick (site : Site) : (Metered.tick site).IsSteady := ⟨_, _, Does.tick site⟩

theorem bind (hx : x.IsSteady) (hf : ∀ a, (f a).IsSteady) : (x >>= f).IsSteady := by
  obtain ⟨sites, outcome, hx⟩ := hx
  cases outcome with
  | error fault => exact ⟨_, _, hx.bind_error⟩
  | ok a =>
      obtain ⟨sites', last, hf⟩ := hf a
      exact ⟨_, _, hx.bind hf⟩

theorem mapM {γ : Type} {f : γ → Metered α} (h : ∀ a, (f a).IsSteady) (as : List γ) :
    (as.mapM f).IsSteady := by
  induction as with
  | nil => exact pure []
  | cons a as ih =>
      rw [List.mapM_cons]
      exact (h a).bind fun _ => ih.bind fun _ => pure _

end IsSteady

end Metered

/-! ### Loops -/

/-- A step leads from one state to another in some number of rounds, and from there no
further. -/
inductive Iterates {σ : Type} (step : σ → Option σ) : σ → Nat → σ → Prop
  | stop {s : σ} (h : step s = none) : Iterates step s 0 s
  | more {s s' t : σ} {n : Nat} (h : step s = some s') (rest : Iterates step s' n t) :
      Iterates step s (n + 1) t

namespace Iterates

variable {σ : Type} {step : σ → Option σ} {s t : σ} {n : Nat}

theorem step_eq_none (h : Iterates step s n t) : step t = none := by
  induction h with
  | stop h => exact h
  | more _ _ ih => exact ih

/-- What every step keeps holds at the end if it holds at the start. -/
theorem keeps {I : σ → Prop} (hI : ∀ s s', step s = some s' → I s → I s')
    (h : Iterates step s n t) (hs : I s) : I t := by
  induction h with
  | stop _ => exact hs
  | more hstep _ ih => exact ih (hI _ _ hstep hs)

/-- A loop ends if each of its steps raises a rank that an invariant keeps below a bound. -/
theorem exists_of_bounded {I : σ → Prop} (rank : σ → Nat) (bound : Nat)
    (hI : ∀ s s', step s = some s' → I s → I s')
    (hrank : ∀ s s', step s = some s' → rank s' = rank s + 1)
    (hbound : ∀ s, I s → rank s ≤ bound) (hs : I s) : ∃ n t, Iterates step s n t := by
  obtain ⟨k, hk⟩ : ∃ k, bound - rank s = k := ⟨_, rfl⟩
  induction k generalizing s with
  | zero =>
      cases hstep : step s with
      | none => exact ⟨0, s, stop hstep⟩
      | some s' =>
          have := hbound s' (hI s s' hstep hs)
          have := hrank s s' hstep
          omega
  | succ k ih =>
      cases hstep : step s with
      | none => exact ⟨0, s, stop hstep⟩
      | some s' =>
          have := hrank s s' hstep
          obtain ⟨n, t, h⟩ := ih (hI s s' hstep hs) (by omega)
          exact ⟨n + 1, t, more hstep h⟩

/-- The metered loop makes one charge in each round. -/
theorem does (h : Iterates step s n t) (site : Site) :
    (Metered.iterate site step s).Does (List.replicate n site) (.ok t) := by
  intro scope
  rw [List.map_replicate]
  induction h with
  | stop h =>
      intro b
      show Metered.iterate site step _ scope b = _
      rw [Metered.iterate, h]
      rfl
  | @more s s' t n h _ ih =>
      intro b
      show Metered.iterate site step s scope b = _
      rw [Metered.iterate, h, List.replicate_succ, spend]
      simp only
      split
      · rename_i t' ht'
        rw [ht']
      · rename_i hgo
        rw [hgo]
        exact ih _

end Iterates

end ConversionClosure
