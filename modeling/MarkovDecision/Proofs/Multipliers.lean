import MarkovDecision.Proofs.Process.Flow
import MarkovDecision.Proofs.UndiscountedPrograms

namespace MarkovDecision

theorem level_of_bounded {K : Type} [Field K] [LinearOrder K] [IsStrictOrderedRing K] {c l : K}
    (above : ∀ k, c ≤ k * l) : l = 0 := by
  by_contra slope
  have low := above ((c - 1) / l)
  rw [div_mul_cancel₀ _ slope] at low
  linarith

variable {n : Nat} {K : Type} [Field K] [LinearOrder K] [FloorRing K]

-- The cost of a point if every unit beyond the bound of a row costs its multiplier, and every unit that is
-- left of it earns as much.
def LinearProgram.lagrangian (p : LinearProgram (Extended K)) (ys : List K) (x : Fin n → K) : Extended K :=
  p.cost x + Scalar.sum
    (List.zipWith (fun c y => .finite y * (c.1.dot (exactVector x) - c.2)) p.constraints ys)

structure LinearProgram.Supports (n : Nat) (p : LinearProgram (Extended K)) (ys : List K) (z : K) : Prop where
  length : ys.length = p.constraints.length
  nonneg : ∀ y ∈ ys, 0 ≤ y
  below : ∀ x : Fin n → K, p.unconstrained.Feasible x → Scalar.le (.finite z) (p.lagrangian ys x) = true

def LinearProgram.DualOptimal (n : Nat) (p : LinearProgram (Extended K)) (ys : List K) : Prop :=
  ∃ z, p.Supports n ys z ∧ ∀ ys' z', p.Supports n ys' z' → z' ≤ z

theorem RowPlan.lagrangian_exact {P : Process n K} (plan : RowPlan P)
    (y : (Σ s : Fin n, Fin (P.actionCount s)) → K) (v : Fin n → K) :
    plan.program.program.lagrangian (plan.pairs.map y) v = .finite (∑ s, v s
      - ∑ s, if plan.fixed s then 0 else ∑ a, y ⟨s, a⟩ * plan.slack v ⟨s, a⟩) := by
  have rows : List.zipWith
      (fun c y => Extended.finite y * (c.1.dot (exactVector v) - c.2))
      plan.program.program.constraints (plan.pairs.map y)
      = ((plan.pairs.map fun x => y x * plan.slack v x).map fun e => -e).map Extended.finite := by
    rw [program_constraints, List.zipWith_map, List.zipWith_self, List.map_map, List.map_map]
    refine List.map_congr_left fun x _ => ?_
    rw [row_dot, Extended.finite_sub, Extended.finite_mul, Function.comp_apply, Function.comp_apply, slack]
    exact congrArg Extended.finite (by ring)
  rw [LinearProgram.lagrangian, program_cost, rows, Extended.sum_finite, Extended.finite_add,
    ← List.sum_neg, pairs_sum, sub_eq_add_neg]

section Plans

variable {P : Process n K} {pay : P.Tariff} {v : Fin n → K}

theorem payPlan_lagrangian (pay : P.Tariff) (y : (Σ s : Fin n, Fin (P.actionCount s)) → K) (v : Fin n → K) :
    (P.payPlan pay).program.program.lagrangian ((P.payPlan pay).pairs.map y) v
      = .finite (∑ s, v s - P.shortfall pay (fun s a => y ⟨s, a⟩) v) := by
  rw [RowPlan.lagrangian_exact, Process.shortfall]
  simp only [payPlan_slack]
  simp only [Process.payPlan, decide_eq_true_eq]

variable [IsStrictOrderedRing K]

-- The multipliers of rows are flows: of a vector that is scaled up or down the cost stays bounded only if
-- the flow is balanced against it.
theorem payPlan_supports (pay : P.Tariff) (y : (Σ s : Fin n, Fin (P.actionCount s)) → K) (z : K) :
    (P.payPlan pay).program.program.Supports n ((P.payPlan pay).pairs.map y) z ↔
      P.Flow (fun s a => y ⟨s, a⟩) ∧ z ≤ P.collected pay fun s a => y ⟨s, a⟩ := by
  have bounded (u : Fin n → K) : Scalar.le (.finite z)
      ((P.payPlan pay).program.program.lagrangian ((P.payPlan pay).pairs.map y) u) = true ↔
      z ≤ ∑ s, u s - P.shortfall pay (fun s a => y ⟨s, a⟩) u := by
    rw [payPlan_lagrangian, Extended.le_finite, decide_eq_true_eq]
  have free (u : Fin n → K) : (P.payPlan pay).program.program.unconstrained.Feasible u ↔
      ∀ s, P.Terminal s → u s = 0 := by
    rw [RowPlan.unconstrained_iff]
    exact forall_congr' fun s => by rw [Process.payPlan, decide_eq_true_eq]
  constructor
  · intro supports
    have flow : P.Flow fun s a => y ⟨s, a⟩ := by
      refine ⟨fun s lasting a => supports.nonneg _ (List.mem_map_of_mem
        ((RowPlan.mem_pairs _ ⟨s, a⟩).mpr (decide_eq_false lasting))), fun u zero => ?_⟩
      refine sub_eq_zero.mp (level_of_bounded (c := z - P.collected pay fun s a => y ⟨s, a⟩) fun k => ?_)
      have scaled := (bounded (k • u)).mp (supports.below _ ((free _).mpr fun s ends => by
        rw [Pi.smul_apply, zero s ends, smul_zero]))
      simp only [Process.shortfall_eq, Process.lost_smul, Pi.smul_apply, smul_eq_mul, ← Finset.mul_sum]
        at scaled
      linarith
    have origin := (bounded 0).mp (supports.below 0 ((free 0).mpr fun _ _ => rfl))
    exact ⟨flow, origin.trans_eq (flow.collected_eq (fun _ _ => rfl) pay).symm⟩
  · rintro ⟨flow, enough⟩
    refine ⟨by simp [RowPlan.program_constraints], fun e member => ?_, fun u inside => (bounded u).mpr ?_⟩
    · obtain ⟨x, listed, rfl⟩ := List.mem_map.mp member
      exact flow.nonneg x.1 (of_decide_eq_false ((RowPlan.mem_pairs _ x).mp listed)) x.2
    · rwa [← flow.collected_eq ((free u).mp inside)]

variable [Archimedean K]

theorem payPlan_dualOptimal (stochastic : P.Stochastic) (least : P.Least pay v)
    (y : (Σ s : Fin n, Fin (P.actionCount s)) → K) :
    (P.payPlan pay).program.program.DualOptimal n ((P.payPlan pay).pairs.map y) ↔
      P.Flow (fun s a => y ⟨s, a⟩) ∧ P.collected pay (fun s a => y ⟨s, a⟩) = ∑ s, v s := by
  constructor
  · rintro ⟨z, supports, greatest⟩
    obtain ⟨flow, enough⟩ := (payPlan_supports pay y z).mp supports
    obtain ⟨best, carried, all⟩ := Process.exists_optimal_flow stochastic least
    have reached := greatest _ _ ((payPlan_supports pay (fun x => best x.1 x.2) _).mpr ⟨carried, all.ge⟩)
    exact ⟨flow, le_antisymm (flow.collected_le least.dominates) (reached.trans enough)⟩
  · rintro ⟨flow, all⟩
    refine ⟨_, (payPlan_supports pay y _).mpr ⟨flow, all.ge⟩, fun ys z other => ?_⟩
    obtain ⟨u, rfl⟩ := RowPlan.exists_pairs_map (P.payPlan pay)
      (other.length.trans (by simp [RowPlan.program_constraints]))
    obtain ⟨rival, enough⟩ := (payPlan_supports pay u z).mp other
    exact enough.trans (rival.collected_le least.dominates)

end Plans

end MarkovDecision
