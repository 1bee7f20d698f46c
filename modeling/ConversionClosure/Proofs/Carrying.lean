/-
What is carried from one charge to the next.

A carrier holds a deadline, a budget and a stage, and each of them may be missing.  Whatever is done
with it, a budget in force changes by calls alone: what a move charges can be told from the move and
from what is carried.  So the books of a budget (`Budget.Books`) are kept over any run of moves,
those that fail included, and an exhausted budget stays exhausted whatever is put in force beside
it.

With everything in force, a check of one tick is the tick of a metered computation, except that it
does not say where it was made.
-/
import ConversionClosure.Proofs.Booking
import ConversionClosure.Work.Carrier

namespace ConversionClosure

namespace Budget

variable {b : Budget} {stage : String} {ticks : Quantity}

/-- The call that an amount of ticks stands for, if it stands for an integer. -/
def callsOf (stage : String) (ticks : Quantity) : List Call :=
  match ticks.toInt with
  | .ok n => [(stage, n)]
  | .error _ => []

/-- However the ticks are given, a charge leaves the budget as the call does. -/
theorem charge_snd (b : Budget) (stage : String) (ticks : Quantity) :
    (b.charge stage ticks).2 = b.after (callsOf stage ticks) := by
  unfold callsOf
  cases hticks : ticks.toInt with
  | error fault => simp only [charge, hticks, after, List.foldl_nil]
  | ok n =>
      show _ = (b.charge stage (.int n)).2
      rcases Int.lt_or_le 0 n with hn | hn
      · rw [charge_of_pos b stage hn]
        simp only [charge, hticks, if_neg (Int.not_le.mpr hn)]
        split <;> rfl
      · rw [charge_of_nonpos b stage hn]
        simp only [charge, hticks, if_pos hn]

theorem ofLimit_eq_ok_iff {given : Quantity} : ofLimit given = .ok b ↔
    ∃ limit, given.toInt = .ok limit ∧ 0 < limit ∧ { limit := limit.toNat } = b := by
  simp only [ofLimit, bind, Except.bind]
  cases hgiven : given.toInt with
  | error fault => simp
  | ok limit =>
      rcases Int.lt_or_le 0 limit with hlimit | hlimit
      · simp [Int.not_le.mpr hlimit, hlimit, pure, Except.pure]
      · simp [hlimit, Int.not_lt.mpr hlimit, throw, throwThe, MonadExceptOf.throw]

end Budget

/-- The fault without the site of a time-out. -/
def Fault.withoutSite : Fault → Fault
  | .timeout t => .timeout { t with site := none }
  | fault => fault

namespace Carrier

open Budget

variable {c c' : Carrier} {b : Budget} {d : Deadline} {n : Int} {elapsed : Nat}

/-! ### Checks -/

/-- A check leaves everything but the budget as it was, and the budget as its charge does. -/
theorem check_snd (hd : c.deadline = some d) (ticks : Quantity) (elapsed : Nat) :
    (c.check ticks elapsed).2 =
      { c with budget := c.budget.map (·.after (callsOf c.currentStage ticks)) } := by
  obtain ⟨deadline, budget, stage⟩ := c
  obtain rfl : deadline = some d := hd
  cases budget with
  | none => rfl
  | some b =>
      simp only [check, Option.map_some, ← charge_snd]
      split
      · rfl
      · rfl
      · split <;> rfl

theorem check_of_no_deadline (hd : c.deadline = none) (ticks : Quantity) (elapsed : Nat) :
    c.check ticks elapsed = (.error (.broken .noDeadline), c) := by
  simp only [check, hd]

/-- A check of some ticks is a time-out when they bring the total to the limit, or else when the
deadline is over. -/
theorem check_fst_of_pos (hd : c.deadline = some d) (hb : c.budget = some b) (hn : 0 < n)
    (elapsed : Nat) :
    (c.check (.int n) elapsed).1 =
      if b.limit ≤ b.total + n then
        .error (.timeout ⟨c.currentStage, none, b.total + n.toNat, true⟩)
      else if d.expired elapsed then
        .error (.timeout ⟨c.currentStage, none, b.total + n.toNat, false⟩)
      else .ok () := by
  simp only [check, hd, hb, charge_of_pos b _ hn, total_record]
  by_cases hlimit : (b.limit : Int) ≤ b.total + n
  · simp only [if_pos hlimit]
  · simp only [if_neg hlimit]
    split <;> rfl

/-- **A tick is a check of one tick**, and says besides where it was made. -/
theorem check_eq_tick (site : Site) (stage : String) (timer : Timer) (b : Budget) :
    check ⟨some timer.deadline, some b, some stage⟩ 1 (timer.clock (b.total + 1)) =
      (((Metered.tick site).runWith ⟨stage, timer⟩ b).1.mapError Fault.withoutSite,
        ⟨some timer.deadline, some ((Metered.tick site).runWith ⟨stage, timer⟩ b).2,
          some stage⟩) := by
  have hcheck := @check_fst_of_pos ⟨some timer.deadline, some b, some stage⟩ b timer.deadline 1 rfl
    rfl (by decide) (timer.clock (b.total + 1))
  have hreach : (b.limit : Int) ≤ b.total + 1 ↔ b.limit ≤ b.total + 1 := by omega
  simp only [hreach] at hcheck
  have hbooked : (b.after (callsOf stage 1)) = b.record stage 1 := by
    rw [← charge_snd]
    exact congrArg Prod.snd (charge_of_pos b stage (by decide))
  rw [Metered.runWith_tick, verdict_record, Timer.stops]
  refine Prod.ext (hcheck.trans ?_) ((check_snd rfl 1 _).trans ?_)
  · by_cases hlimit : b.limit ≤ b.total + 1
    · simp only [hlimit, if_true, decide_true, Bool.true_or]
      rfl
    · simp only [hlimit, if_false, decide_false, Bool.false_or]
      show (if timer.expired (b.total + 1) = true then _ else _) = _
      split <;> rfl
  · show Carrier.mk _ (some (b.after (callsOf stage 1))) _ = _
    rw [hbooked]
    split <;> rfl

/-! ### Moves -/

/-- What can be done with a carrier while its budget stays in force. -/
inductive Move
  | charge (stage : String) (ticks : Quantity)
  | check (ticks : Quantity) (elapsed : Nat)
  | nested (limit : Quantity) (elapsed : Nat)
  | enter (stage : Option String)
  | setDeadline (milliseconds : Option Quantity)

/-- What comes of a move, and the carrier after it. -/
def Move.run : Move → Carrier → Except Fault Unit × Carrier
  | charge stage ticks, c => c.charge stage ticks
  | check ticks elapsed, c => c.check ticks elapsed
  | nested limit elapsed, c => c.nested limit elapsed
  | enter stage, c => (.ok (), { c with stage })
  | setDeadline milliseconds, c => c.setDeadline milliseconds

/-- The calls that a move makes on the budget in force.  A check makes none without a deadline, and
what is nested makes none unless its limit is one. -/
def Move.calls (c : Carrier) : Move → List Call
  | charge stage ticks => callsOf stage ticks
  | check ticks _ => if c.deadline.isSome then callsOf c.currentStage ticks else []
  | nested limit _ =>
    match ofLimit limit with
    | .ok _ => if c.deadline.isSome then [(c.stage.getD "outer", 1)] else []
    | .error _ => []
  | enter _ | setDeadline _ => []

/-- The carrier after some moves, whatever came of each of them. -/
def after (c : Carrier) (moves : List Move) : Carrier := moves.foldl (fun c m => (m.run c).2) c

/-- The calls that some moves make, one after the other. -/
def calls (c : Carrier) : List Move → List Call
  | [] => []
  | m :: moves => m.calls c ++ calls (m.run c).2 moves

theorem map_after_nil (budget : Option Budget) : budget.map (·.after []) = budget := Option.map_id'

theorem budget_check (c : Carrier) (ticks : Quantity) (elapsed : Nat) :
    (c.check ticks elapsed).2.budget =
      c.budget.map (·.after (if c.deadline.isSome then callsOf c.currentStage ticks else [])) := by
  cases hd : c.deadline with
  | none =>
      rw [check_of_no_deadline hd]
      exact (map_after_nil _).symm
  | some d =>
      rw [check_snd hd]
      rfl

/-- A move changes the budget in force by the calls that it makes, whatever comes of it. -/
theorem budget_run (c : Carrier) (m : Move) :
    (m.run c).2.budget = c.budget.map (·.after (m.calls c)) := by
  cases m with
  | charge stage ticks =>
      show (c.charge stage ticks).2.budget = c.budget.map (·.after (callsOf stage ticks))
      cases hb : c.budget with
      | none => simp [Carrier.charge, hb]
      | some b => simp [Carrier.charge, hb, charge_snd]
  | check ticks elapsed => exact budget_check c ticks elapsed
  | nested limit elapsed =>
      show (c.nested limit elapsed).2.budget = _
      simp only [nested, Move.calls]
      cases ofLimit limit with
      | error fault => exact (map_after_nil _).symm
      | ok inner => exact budget_check _ 1 elapsed
  | enter stage => exact (map_after_nil _).symm
  | setDeadline milliseconds =>
      show (c.setDeadline milliseconds).2.budget = _
      refine Eq.trans ?_ (map_after_nil _).symm
      unfold setDeadline
      split
      · rfl
      · split <;> rfl

theorem budget_after (c : Carrier) (moves : List Move) :
    (c.after moves).budget = c.budget.map (·.after (c.calls moves)) := by
  induction moves generalizing c with
  | nil => exact (map_after_nil _).symm
  | cons m moves ih =>
      refine (ih _).trans ?_
      rw [budget_run, Option.map_map, calls]
      refine congrArg (c.budget.map ·) (funext fun b => ?_)
      exact (Budget.after_append b _ _).symm

/-- **The books of a budget are kept from the moment it is put in force**, over any moves and
whatever comes of them. -/
theorem books_after {given : Quantity} (h : c.setBudget given = (.ok (), c')) (moves : List Move) :
    ∃ limit b, given.toInt = .ok limit ∧ (c'.after moves).budget = some b ∧
      Books limit (c'.calls moves) b := by
  unfold setBudget at h
  cases hgiven : ofLimit given with
  | error fault =>
      rw [hgiven] at h
      cases h
  | ok start =>
      rw [hgiven] at h
      obtain rfl := (Prod.mk.inj h).2
      obtain ⟨limit, hint, hlimit, rfl⟩ := ofLimit_eq_ok_iff.mp hgiven
      refine ⟨limit, _, hint, budget_after _ moves, ?_⟩
      exact (Books.empty limit hlimit).after _

/-- **An exhausted budget stays exhausted.**  After any moves, a check that books anything is a
time-out for want of work, whatever the deadline is and whatever the clock shows. -/
theorem check_of_exhausted (hb : c.budget = some b) (hfull : b.limit ≤ b.total) (moves : List Move)
    (hd : (c.after moves).deadline = some d) (hn : 0 < n) (elapsed : Nat) :
    ∃ spent, ((c.after moves).check (.int n) elapsed).1 =
      .error (.timeout ⟨(c.after moves).currentStage, none, spent, true⟩) := by
  have hafter : (c.after moves).budget = some (b.after (c.calls moves)) := by
    rw [budget_after, hb]
    rfl
  have hgrows := total_le_total_after b (c.calls moves)
  have hreach : ((b.after (c.calls moves)).limit : Int) ≤ (b.after (c.calls moves)).total + n := by
    rw [limit_after]
    omega
  exact ⟨_, (check_fst_of_pos hd hafter hn elapsed).trans (if_pos hreach)⟩

end Carrier

end ConversionClosure
