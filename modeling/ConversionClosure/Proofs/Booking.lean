/-
The books of a budget.

A charge is either refused and leaves no trace, or it is booked, and then it stays booked even if it
exhausts the budget.  So the books of a budget can be told from the calls that were made, whatever
came of each of them: `Books` says how, a single charge keeps it, and so does a run of charges.

Booking never lowers the total and never moves the limit.  So a budget that is exhausted stays
exhausted.
-/
import ConversionClosure.Proofs.Metering
import Mathlib.Algebra.Order.Ring.Int

namespace ConversionClosure.Budget

/-- A stage and the ticks that it is to be charged. -/
abbrev Call := String × Int

variable {b : Budget} {limit n : Int} {calls : List Call} {stage : String}

/-- The budget after some calls, whatever came of each of them. -/
def after (b : Budget) (calls : List Call) : Budget :=
  calls.foldl (fun b call => (b.charge call.1 (.int call.2)).2) b

theorem after_append (b : Budget) (calls calls' : List Call) :
    b.after (calls ++ calls') = (b.after calls).after calls' := List.foldl_append

/-! ### One charge -/

theorem charge_of_nonpos (b : Budget) (stage : String) (h : n ≤ 0) :
    b.charge stage (.int n) = (.error (.broken (.workTicks (toString n) stage)), b) := by
  simp only [charge, Quantity.toInt, Quantity.shown, if_pos h]

theorem charge_of_pos (b : Budget) (stage : String) (h : 0 < n) :
    b.charge stage (.int n) =
      (if b.limit ≤ b.total + n then .error (.exhausted stage (b.total + n.toNat) b.limit)
        else .ok (), b.record stage n.toNat) := by
  have hreach : b.limit ≤ b.total + n.toNat ↔ (b.limit : Int) ≤ b.total + n := by omega
  simp only [charge, Quantity.toInt, if_neg (Int.not_le.mpr h), isExhausted, decide_eq_true_eq,
    total_record, limit_record, hreach]
  split <;> rfl

/-- The call is booked, and the budget is exhausted then. -/
def Exhausts (b : Budget) (stage : String) (n : Int) : Prop :=
  ∃ spent, (b.charge stage (.int n)).1 = .error (.exhausted stage spent b.limit)

theorem exhausts_iff : b.Exhausts stage n ↔ 0 < n ∧ b.limit ≤ b.total + n := by
  unfold Exhausts
  rcases Int.lt_or_le 0 n with h | h
  · rw [charge_of_pos b stage h]
    split <;> simp_all
  · rw [charge_of_nonpos b stage h]
    simp [Int.not_lt.mpr h]

theorem limit_charge (b : Budget) (stage : String) (n : Int) :
    (b.charge stage (.int n)).2.limit = b.limit := by
  rcases Int.lt_or_le 0 n with h | h
  · rw [charge_of_pos b stage h, limit_record]
  · rw [charge_of_nonpos b stage h]

theorem total_le_total_charge (b : Budget) (stage : String) (n : Int) :
    b.total ≤ (b.charge stage (.int n)).2.total := by
  rcases Int.lt_or_le 0 n with h | h
  · rw [charge_of_pos b stage h, total_record]
    exact Nat.le_add_right _ _
  · exact Nat.le_of_eq (by rw [charge_of_nonpos b stage h])

/-! ### Books -/

theorem mem_stages_book {name : String} {ticks : Nat} {ledger : List (String × Nat)} :
    name ∈ (book stage ticks ledger).map Prod.fst ↔ name = stage ∨ name ∈ ledger.map Prod.fst := by
  induction ledger with
  | nil => simp [book]
  | cons entry ledger ih =>
      obtain ⟨s, m⟩ := entry
      rw [book]
      split
      · rename_i hs
        simp [hs]
      · simp only [List.map_cons, List.mem_cons, ih]
        exact or_left_comm

theorem nodup_stages_book {ticks : Nat} {ledger : List (String × Nat)}
    (h : (ledger.map Prod.fst).Nodup) : ((book stage ticks ledger).map Prod.fst).Nodup := by
  induction ledger with
  | nil => simp [book]
  | cons entry ledger ih =>
      obtain ⟨s, m⟩ := entry
      rw [List.map_cons, List.nodup_cons] at h
      rw [book]
      split
      · exact List.nodup_cons.mpr h
      · rename_i hs
        rw [List.map_cons, List.nodup_cons, mem_stages_book, not_or]
        exact ⟨⟨hs, h.1⟩, ih h.2⟩

theorem sum_book (stage : String) (ticks : Nat) (ledger : List (String × Nat)) :
    ((book stage ticks ledger).map Prod.snd).sum = (ledger.map Prod.snd).sum + ticks := by
  induction ledger with
  | nil => simp [book]
  | cons entry ledger ih =>
      obtain ⟨s, m⟩ := entry
      rw [book]
      split
      · simp only [List.map_cons, List.sum_cons]
        omega
      · simp only [List.map_cons, List.sum_cons, ih]
        omega

/-- The sum of the positive ticks among some calls. -/
def positiveTicks (calls : List Call) : Int := ((calls.map Prod.snd).filter (0 < ·)).sum

theorem positiveTicks_append (calls calls' : List Call) :
    positiveTicks (calls ++ calls') = positiveTicks calls + positiveTicks calls' := by
  simp [positiveTicks]

theorem positiveTicks_of_pos (h : 0 < n) : positiveTicks [(stage, n)] = n := by
  simp [positiveTicks, h]

theorem positiveTicks_of_nonpos (h : n ≤ 0) : positiveTicks [(stage, n)] = 0 := by
  simp [positiveTicks, Int.not_lt.mpr h]

/-- The books that some calls leave under a limit: each stage has one entry, with the positive ticks
that it was charged, and the total is the sum of the entries and of all positive ticks. -/
structure Books (limit : Int) (calls : List Call) (b : Budget) : Prop where
  limit_eq : b.limit = limit
  nodup : (b.ledger.map Prod.fst).Nodup
  total_eq_sum : b.total = (b.ledger.map Prod.snd).sum
  total_eq_ticks : b.total = positiveTicks calls
  spent_eq_ticks : ∀ stage, b.spent stage = positiveTicks (calls.filter (·.1 == stage))

namespace Books

theorem empty (limit : Int) (h : 0 < limit) : Books limit [] { limit := limit.toNat } where
  limit_eq := Int.toNat_of_nonneg (Int.le_of_lt h)
  nodup := List.nodup_nil
  total_eq_sum := rfl
  total_eq_ticks := rfl
  spent_eq_ticks := fun _ => rfl

theorem refused (h : Books limit calls b) (stage : String) (hn : n ≤ 0) :
    Books limit (calls ++ [(stage, n)]) b where
  limit_eq := h.limit_eq
  nodup := h.nodup
  total_eq_sum := h.total_eq_sum
  total_eq_ticks := by
    rw [positiveTicks_append, positiveTicks_of_nonpos hn, Int.add_zero]
    exact h.total_eq_ticks
  spent_eq_ticks := by
    intro name
    rw [List.filter_append, positiveTicks_append, ← h.spent_eq_ticks name]
    by_cases hname : stage = name
    · simp [hname, positiveTicks_of_nonpos hn]
    · simp [hname, positiveTicks]

theorem booked (h : Books limit calls b) (stage : String) (hn : 0 < n) :
    Books limit (calls ++ [(stage, n)]) (b.record stage n.toNat) where
  limit_eq := h.limit_eq
  nodup := nodup_stages_book h.nodup
  total_eq_sum := by
    rw [total_record, h.total_eq_sum]
    exact (sum_book _ _ _).symm
  total_eq_ticks := by
    rw [positiveTicks_append, positiveTicks_of_pos hn, ← h.total_eq_ticks, total_record]
    omega
  spent_eq_ticks := by
    intro name
    rw [List.filter_append, positiveTicks_append, ← h.spent_eq_ticks name, spent_record]
    by_cases hname : stage = name
    · simp only [hname, if_true, List.filter_cons, beq_self_eq_true, List.filter_nil,
        positiveTicks_of_pos hn]
      omega
    · simp [hname, positiveTicks]

/-- A charge keeps the books, whatever comes of it. -/
theorem charge (h : Books limit calls b) (stage : String) (n : Int) :
    Books limit (calls ++ [(stage, n)]) (b.charge stage (.int n)).2 := by
  rcases Int.lt_or_le 0 n with hn | hn
  · rw [charge_of_pos b stage hn]
    exact h.booked stage hn
  · rw [charge_of_nonpos b stage hn]
    exact h.refused stage hn

/-- So does a run of charges. -/
theorem after (h : Books limit calls b) (calls' : List Call) :
    Books limit (calls ++ calls') (b.after calls') := by
  induction calls' generalizing b calls with
  | nil => rwa [List.append_nil]
  | cons call calls' ih =>
      rw [List.append_cons]
      exact ih (h.charge call.1 call.2)

end Books

/-! ### Exhaustion lasts -/

theorem limit_after (b : Budget) (calls : List Call) : (b.after calls).limit = b.limit := by
  induction calls generalizing b with
  | nil => rfl
  | cons call calls ih => exact (ih _).trans (limit_charge b call.1 call.2)

theorem total_le_total_after (b : Budget) (calls : List Call) : b.total ≤ (b.after calls).total := by
  induction calls generalizing b with
  | nil => exact Nat.le_refl _
  | cons call calls ih => exact Nat.le_trans (total_le_total_charge b call.1 call.2) (ih _)

/-- After a charge that exhausted the budget, every charge that is booked does. -/
theorem Exhausts.after {name : String} {m : Int} (h : b.Exhausts stage n) (calls : List Call)
    (hm : 0 < m) : (b.after ((stage, n) :: calls)).Exhausts name m := by
  obtain ⟨hn, hreach⟩ := exhausts_iff.mp h
  have hfirst : (b.after [(stage, n)]).total = b.total + n.toNat := by
    show (b.charge stage (.int n)).2.total = _
    rw [charge_of_pos b stage hn, total_record]
  have hgrows := total_le_total_after (b.after [(stage, n)]) calls
  rw [← after_append, List.singleton_append] at hgrows
  rw [exhausts_iff, limit_after]
  omega

/-- **A budget keeps its books over any run of charges.**  What is charged with no tick or fewer is
refused and changes nothing.  Every other charge is booked, and it exhausts the budget exactly when
the new total is at the limit or above it; from then on, so does every charge that is booked. -/
theorem charges_booked (hlimit : 0 < limit) (calls : List Call) :
    ∃ start, ofLimit (.int limit) = .ok start ∧ Books limit calls (start.after calls) ∧
      (∀ stage n, n ≤ 0 → (start.after calls).charge stage (.int n) =
        (.error (.broken (.workTicks (toString n) stage)), start.after calls)) ∧
      (∀ stage n, 0 < n → ∃ b, b = (start.after calls).record stage n.toNat ∧
        (start.after calls).charge stage (.int n) =
          (if limit ≤ b.total then .error (.exhausted stage b.total limit.toNat) else .ok (), b)) ∧
      ∀ earlier stage n later, calls = earlier ++ (stage, n) :: later →
        (start.after earlier).Exhausts stage n →
          ∀ name m, 0 < m → (start.after calls).Exhausts name m := by
  have hnat : (limit.toNat : Int) = limit := Int.toNat_of_nonneg (Int.le_of_lt hlimit)
  have hstart : ofLimit (.int limit) = .ok { limit := limit.toNat } := by
    rw [ofLimit_int, if_neg (Int.not_le.mpr hlimit)]
  have hbooks := (Books.empty limit hlimit).after calls
  rw [List.nil_append] at hbooks
  refine ⟨_, hstart, hbooks, fun stage n hn => charge_of_nonpos _ stage hn, ?_, ?_⟩
  · intro stage n hn
    refine ⟨_, rfl, ?_⟩
    rw [charge_of_pos _ stage hn, hbooks.limit_eq, limit_after, total_record, Int.natCast_add,
      Int.toNat_of_nonneg (Int.le_of_lt hn)]
  · rintro earlier stage n later rfl hexhausts name m hm
    rw [after_append]
    exact hexhausts.after later hm

/-! A limit of four, with charges of one tick and of two, one that is refused in between, and one
that exhausts the budget. -/

def fourCalls : List Call := [("catalog", 1), ("closure", 2), ("closure", 0), ("closure", 1)]

theorem charges_booked_fourCalls : ∃ b, Books 4 fourCalls b ∧ b.total = 4 ∧
    b.ledger = [("catalog", 1), ("closure", 3)] ∧
    b.charge "closure" 0 = (.error (.broken (.workTicks "0" "closure")), b) ∧
    b.Exhausts "emission" 1 := by
  have hlimit : (0 : Int) < 4 := by decide
  obtain ⟨start, hstart, hbooks, hrefused, -, hlasts⟩ := charges_booked hlimit fourCalls
  obtain rfl : { limit := 4 } = start := Except.ok.inj hstart
  have hexhausts : (after { limit := 4 } (fourCalls.take 3)).Exhausts "closure" 1 := ⟨4, rfl⟩
  exact ⟨_, hbooks, rfl, rfl, hrefused "closure" 0 (Int.le_refl 0),
    hlasts _ "closure" 1 [] rfl hexhausts "emission" 1 (by decide)⟩

end ConversionClosure.Budget
