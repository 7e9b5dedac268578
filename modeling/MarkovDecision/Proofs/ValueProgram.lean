import Mathlib
import MarkovDecision.Proofs.ExactSums
import MarkovDecision.Proofs.StatePrograms

namespace MarkovDecision

variable {n : Nat} {K : Type} [Field K]

-- -v(s) + γ E v ≤ -r(s, a), and nothing for fixed states.
def Process.worthPlan (P : Process n K) (γ : K) (fixed : Fin n → Bool) : RowPlan P :=
  ⟨-1, γ, fun s a => -P.reward s a, fixed⟩

def Process.valuePlan (P : Process n K) (γ : K) : RowPlan P := P.worthPlan γ fun _ => false

theorem worthPlan_slack (P : Process n K) (γ : K) (fixed : Fin n → Bool) (v : Fin n → K)
    (x : Σ s : Fin n, Fin (P.actionCount s)) :
    (P.worthPlan γ fixed).slack v x = v x.1 - P.actionValue γ v x.1 x.2 := by
  rw [Process.actionValue_eq, RowPlan.slack, Process.worthPlan]
  ring

theorem valuePlan_slack (P : Process n K) (γ : K) (v : Fin n → K) (x : Σ s : Fin n, Fin (P.actionCount s)) :
    (P.valuePlan γ).slack v x = v x.1 - P.actionValue γ v x.1 x.2 :=
  worthPlan_slack P γ _ v x

variable [LinearOrder K] [FloorRing K]

section Assembly

variable {m : Model (Extended K)} {P : Process n K} {γ : K}

open StateProgram

theorem expectedReward_sum (ts : List (Transition (Extended K))) :
    (expectedReward ts).value = (ts.map fun t => t.probability.value * t.reward.value).sum := by
  have general : ∀ total : Quantity (Extended K),
      (ts.foldl (fun total t => total.add (t.probability.mul t.reward)) total).value
        = total.value + (ts.map fun t => t.probability.value * t.reward.value).sum := by
    induction ts with
    | nil => exact fun total => (add_zero _).symm
    | cons t ts ih =>
      intro total
      rw [List.foldl_cons, ih, List.map_cons, List.sum_cons, Quantity.value_add, Quantity.value_mul, add_assoc]
  rw [expectedReward, general (.whole 0), Quantity.value_whole, Int.cast_zero]
  exact zero_add _

theorem expectedReward_exact {ts : List (Transition (Extended K))} {bs : List (Branch n K)}
    (reads : List.Forall₂ Transition.Reads ts bs) :
    (expectedReward ts).value = .finite (bs.map fun b => b.probability * b.reward).sum := by
  have same : ts.map (fun t => t.probability.value * t.reward.value)
      = bs.map fun b => .finite (b.probability * b.reward) := by
    induction reads with
    | nil => rfl
    | cons first _ ih => rw [List.map_cons, List.map_cons, ih, first.probability, first.reward, Extended.finite_mul]
  rw [expectedReward_sum, same, Extended.sum_map_finite]

theorem negatedReward_exact {ts : List (Transition (Extended K))} {s : Fin n} {a : Fin (P.actionCount s)}
    (reads : List.Forall₂ Transition.Reads ts (P.branches s a)) :
    (expectedReward ts).neg.value = .finite (-P.reward s a) := by
  rw [Quantity.value_neg, expectedReward_exact reads]
  rfl

variable [IsStrictOrderedRing K]

theorem valueProgram_exact (described : m.Describes P) (γ : K) :
    StateProgram.value m (.objective (.infinite (.finite γ))) = .ok (P.valuePlan γ).program := by
  have follows : (P.valuePlan γ).Follows m
      ⟨-Scalar.one, .finite γ, fun ts => (expectedReward ts).neg, false⟩ :=
    ⟨Extended.neg_one, rfl, fun _ _ _ reads => negatedReward_exact reads, fun _ => rfl⟩
  exact RowPlan.collect_exact described follows

end Assembly

section Optimum

variable {P : Process n K} {γ : K}

variable [IsStrictOrderedRing K]

theorem feasible_iff (v : Fin n → K) : (P.valuePlan γ).program.program.Feasible v ↔
    ∀ s (a : Fin (P.actionCount s)), P.actionValue γ v s a ≤ v s := by
  rw [RowPlan.feasible_iff]
  constructor
  · rintro ⟨_, rows⟩ s a
    have short := rows s rfl a
    rw [valuePlan_slack] at short
    exact sub_nonneg.mp short
  · intro bounds
    refine ⟨fun s fixed => (by cases fixed), fun s _ a => ?_⟩
    rw [valuePlan_slack]
    exact sub_nonneg.mpr (bounds s a)

-- No action beats the optimal value, and what no action beats lies above it.
theorem le_of_feasible (stochastic : P.Stochastic) (nonneg : 0 ≤ γ) (below : γ < 1) {best v : Fin n → K}
    (optimal : P.bellman γ best = best) (feasible : (P.valuePlan γ).program.program.Feasible v) (s : Fin n) :
    best s ≤ v s :=
  Process.le_of_follow stochastic (P.sure_distribution (P.greedy γ best)) nonneg below
    (fun t => by rw [Process.follow_greedy, optimal])
    (fun t => by
      rw [Process.follow_sure]
      exact (feasible_iff v).mp feasible t _) s

theorem minimal_iff (stochastic : P.Stochastic) (nonneg : 0 ≤ γ) (below : γ < 1) {best : Fin n → K}
    (optimal : P.bellman γ best = best) (v : Fin n → K) :
    (P.valuePlan γ).program.program.Minimal v ↔ v = best := by
  have feasible : (P.valuePlan γ).program.program.Feasible best := (feasible_iff best).mpr fun s a =>
    (Process.actionValue_le_bellman a).trans (congrFun optimal s).le
  constructor
  · intro minimal
    have total := minimal.least best feasible
    rw [RowPlan.program_cost, RowPlan.program_cost, Extended.le_finite, decide_eq_true_eq] at total
    have above := le_of_feasible stochastic nonneg below optimal minimal.feasible
    have same := (Finset.sum_eq_sum_iff_of_le fun s _ => above s).mp
      (le_antisymm (Finset.sum_le_sum fun s _ => above s) total)
    exact funext fun s => (same s (Finset.mem_univ s)).symm
  · rintro rfl
    refine ⟨feasible, fun y inside => ?_⟩
    rw [RowPlan.program_cost, RowPlan.program_cost, Extended.le_finite, decide_eq_true_eq]
    exact Finset.sum_le_sum fun s _ => le_of_feasible stochastic nonneg below optimal inside s

end Optimum

end MarkovDecision
