import MarkovDecision.Proofs.Multipliers
import MarkovDecision.Proofs.PolicyRecovery
import MarkovDecision.Proofs.PolicyRule

namespace MarkovDecision

namespace Process

variable {n : Nat} {K : Type} [Field K] [LinearOrder K] [IsStrictOrderedRing K] {P : Process n K}
  {pay y : P.Tariff} {v : Fin n → K}

theorem Flow.exists_one_le (stochastic : P.Stochastic) (flow : P.Flow y) {s : Fin n}
    (lasting : ¬P.Terminal s) (single : ∀ a b, y s a ≠ 0 → y s b ≠ 0 → a = b) : ∃ a, 1 ≤ y s a := by
  have leaves := flow.one_le stochastic lasting
  obtain ⟨a, _, taken⟩ := Finset.exists_ne_zero_of_sum_ne_zero (zero_lt_one.trans_le leaves).ne'
  refine ⟨a, leaves.trans_eq (Finset.sum_eq_single a (fun b _ other => ?_) fun missing => ?_)⟩
  · by_contra also
    exact other (single b a also taken)
  · exact absurd (Finset.mem_univ a) missing

theorem Flow.earns (flow : P.Flow y) (dominates : P.Dominates pay v)
    (all : P.collected pay y = ∑ s, v s) {d : P.Selection}
    (taken : ∀ s, ¬P.Terminal s → y s (d s) ≠ 0) : P.Earns pay d v := by
  refine ⟨dominates.terminal, fun s lasting => ?_⟩
  rcases mul_eq_zero.mp (flow.complementary dominates all lasting (d s)) with idle | binding
  · exact absurd idle (taken s lasting)
  · exact sub_eq_zero.mp binding

end Process

-- At a vertex of the dual program at most one row of each state has a multiplier.
def StateProgram.Vertex {α K : Type} [Zero K] (c : StateProgram α) (ys : List K) : Prop :=
  ∀ i j : Nat, c.rowState[i]? = c.rowState[j]? → ys.getD i 0 ≠ 0 → ys.getD j 0 ≠ 0 → i = j

variable {n : Nat} {K : Type} [Field K] [LinearOrder K] [FloorRing K] {P : Process n K}

namespace RowPlan

theorem vertex_apart {plan : RowPlan P} {y : (Σ s : Fin n, Fin (P.actionCount s)) → K}
    (vertex : plan.program.Vertex (plan.pairs.map y)) {s : Fin n} (free : plan.fixed s = false)
    (a b : Fin (P.actionCount s)) (first : y ⟨s, a⟩ ≠ 0) (second : y ⟨s, b⟩ ≠ 0) : a = b := by
  have state (a : Fin (P.actionCount s)) : plan.program.rowState[plan.firstRow s + a]? = some (s : Nat) :=
    row_place plan (fun x => (x.1 : Nat)) free a
  have multiplier (a : Fin (P.actionCount s)) :
      (plan.pairs.map y).getD (plan.firstRow s + a) 0 = y ⟨s, a⟩ := by
    have place := row_place plan y free a
    rw [List.getElem?_toArray] at place
    rw [List.getD_eq_getElem?_getD, place, Option.getD_some]
  have same := vertex (plan.firstRow s + a) (plan.firstRow s + b) ((state a).trans (state b).symm)
    (by rwa [multiplier]) (by rwa [multiplier])
  exact Fin.ext (by omega)

variable [IsStrictOrderedRing K]

theorem preferredRows_exact (plan : RowPlan P) (y : (Σ s : Fin n, Fin (P.actionCount s)) → K)
    {duals : List K} (sign : duals = plan.pairs.map y ∨ duals = (plan.pairs.map y).map fun e => -e)
    (tolerance : K) : StateProgram.preferredRows plan.program.matrix.height
      ((some (duals.map Extended.finite).toArray).map .ofVector) (.finite tolerance)
        = .ok (.ofVector (plan.pairs.map fun x => decide (tolerance < |y x|)).toArray) := by
  have height : plan.program.matrix.height = plan.pairs.length := List.length_map _
  have length : duals.length = plan.pairs.length := by
    rcases sign with rfl | rfl <;> simp
  have sizes : duals.map (fun e => Scalar.lt (.finite tolerance) (Scalar.abs (Extended.finite e)))
      = plan.pairs.map fun x => decide (tolerance < |y x|) := by
    rcases sign with rfl | rfl <;> simp [Function.comp_def]
  simp [StateProgram.preferredRows, Tensor.ofVector, Tensor.length?, Tensor.map, height, length, ← sizes,
    Function.comp_def]

end RowPlan

variable [IsStrictOrderedRing K] [Archimedean K] {m : Model (Extended K)} {tolerance : K}

-- An action that returns to its state without reward is binding at every solution, so that being
-- binding does not lead to the end. But at least one unit of an optimal flow leaves each state that
-- lasts. At a vertex one action alone carries it, and its multiplier is beyond any tolerance below
-- one.
theorem StateProgram.recoverPolicy_vertex (described : m.Describes P) (stochastic : P.Stochastic)
    (nonneg : 0 ≤ tolerance) (below : tolerance < 1) :
    ∃ c, StateProgram.value m (.objective .total) = .ok c ∧ ∀ (x : Fin n → K) (ys duals : List K),
      c.program.Optimal .minimise x → c.program.DualOptimal n ys → c.Vertex ys →
      (duals = ys ∨ duals = ys.map fun e => -e) →
      ∃ p d, c.recoverPolicy (.ofVector (exactVector x)) (some (.ofVector (duals.map Extended.finite).toArray))
          (some (.finite tolerance)) = .ok p ∧
        p = .stationary (P.actionArray d) ∧ p.validate m none = .ok () ∧ P.Transient d ∧ P.Totals d x := by
  refine ⟨_, totalProgram_exact described stochastic, fun x ys duals primal dual vertex sign => ?_⟩
  have least := (payPlan_optimal P.reward x).mp primal
  obtain ⟨_, supports, _⟩ := id dual
  obtain ⟨y, rfl⟩ := RowPlan.exists_pairs_map (P.payPlan P.reward)
    (supports.length.trans (by simp [RowPlan.program_constraints]))
  obtain ⟨flow, all⟩ := (payPlan_dualOptimal stochastic least y).mp dual
  have apart (s : Fin n) (lasting : ¬P.Terminal s) := RowPlan.vertex_apart vertex (decide_eq_false lasting)
  obtain ⟨d, recovered, preferred⟩ := (P.payPlan P.reward).recoverPolicy_preferred (.finite tolerance) x
    (RowPlan.preferredRows_exact _ y sign tolerance)
  -- the one action that carries the flow is binding and marked, so a marked action has been chosen
  have taken (s : Fin n) (lasting : ¬P.Terminal s) : y ⟨s, d s⟩ ≠ 0 := by
    obtain ⟨a, unit⟩ := flow.exists_one_le stochastic lasting (apart s lasting)
    have binds : (P.payPlan P.reward).slack x ⟨s, a⟩ = 0 := by
      rw [payPlan_slack]
      exact (mul_eq_zero.mp (flow.complementary least.dominates all lasting a)).resolve_left
        (zero_lt_one.trans_le unit).ne'
    have within : (P.payPlan P.reward).Binding (.finite tolerance) x ⟨s, a⟩ := by
      rw [RowPlan.binding_finite, binds]
      exact mul_nonneg nonneg (zero_le_one.trans (le_max_left 1 _))
    have marked := (preferred s (decide_eq_false lasting)).first_marked a within
      (decide_eq_true (below.trans_le (unit.trans (le_abs_self _))))
    exact abs_pos.mp (nonneg.trans_lt (of_decide_eq_true marked.2.1))
  have carries : P.Carries d fun s a => y ⟨s, a⟩ := fun s lasting a other => by
    by_contra also
    exact other (apart s lasting a (d s) also (taken s lasting))
  have transient : P.Transient d :=
    (Process.transient_iff_untrapped stochastic d).mpr (flow.untrapped stochastic carries)
  exact ⟨_, d, recovered, rfl, actionArray_valid described d, transient,
    Process.totals_of_earns stochastic transient (flow.earns least.dominates all taken)⟩

theorem Process.lingering_least : lingering.Least lingering.reward ![2, 0] := by
  refine ⟨⟨by decide +kernel, by decide +kernel⟩, fun u dominates => ?_⟩
  let leave : Fin (lingering.actionCount 0) := ⟨1, by decide⟩
  have ends : u 1 = 0 := dominates.terminal 1 (by decide +kernel)
  have worth := dominates.step 0 (by decide +kernel) leave
  have pays : lingering.reward 0 leave = 2 := by decide +kernel
  have moves : lingering.mean u 0 leave = u 1 := by simp [mean, lingering, leave]
  rw [pays, moves, ends] at worth
  simpa [Fin.sum_univ_two, ends] using worth

def Process.departure : lingering.Tariff := fun _ a => if (a : Nat) = 1 then 1 else 0

theorem Process.departure_flow : lingering.Flow departure ∧
    lingering.collected lingering.reward departure = ∑ s, ![2, 0] s := by
  refine ⟨⟨by decide +kernel, fun v zero => ?_⟩, by decide +kernel⟩
  have ended : lingering.Terminal 1 := by decide +kernel
  let leave : Fin (lingering.actionCount 0) := ⟨1, by decide⟩
  have moves : lingering.mean v 0 leave = v 1 := by simp [mean, lingering, leave]
  have others : ∀ a, a ≠ leave → departure 0 a = 0 := fun a other =>
    if_neg fun same => other (Fin.ext same)
  rw [lost, Fin.sum_univ_two, Fin.sum_univ_two, loss_terminal ended, sum_carried others, moves,
    zero 1 ended]
  simp [departure, leave]

theorem StateProgram.recoverPolicy_vertex_lingering : ∃ c p d,
    StateProgram.value (.table Process.lingering.table) (.objective .total) = .ok c ∧
    c.program.Optimal .minimise ![2, 0] ∧ c.program.DualOptimal 2 [0, 1] ∧ c.Vertex [(0 : ℚ), 1] ∧
    c.recoverPolicy (.ofVector (exactVector ![2, 0]))
      (some (.ofVector ([0, -1].map Extended.finite).toArray)) (some (.finite (1 / 2))) = .ok p ∧
    p = .stationary (Process.lingering.actionArray d) ∧
    p.validate (.table Process.lingering.table) none = .ok () ∧ Process.lingering.Transient d ∧
    Process.lingering.Totals d ![2, 0] := by
  have described := table_describes Process.lingering
  have stochastic := Process.lingering_stochastic
  have nonneg : (0 : ℚ) ≤ 1 / 2 := by norm_num
  obtain ⟨c, loaded, recovers⟩ := recoverPolicy_vertex described stochastic nonneg (by norm_num)
  obtain rfl := Except.ok.inj ((totalProgram_exact described stochastic).symm.trans loaded)
  have primal := (payPlan_optimal _ _).mpr Process.lingering_least
  have listed : [0, 1] = (Process.lingering.payPlan Process.lingering.reward).pairs.map
      fun x => Process.departure x.1 x.2 := by decide +kernel
  have dual := (payPlan_dualOptimal stochastic Process.lingering_least
    fun x => Process.departure x.1 x.2).mpr Process.departure_flow
  rw [← listed] at dual
  have vertex : (Process.lingering.payPlan Process.lingering.reward).program.Vertex [(0 : ℚ), 1] := by
    have second : ∀ k, [(0 : ℚ), 1].getD k 0 ≠ 0 → k = 1
      | 0, taken => absurd rfl taken
      | 1, _ => rfl
      | _ + 2, taken => absurd rfl taken
    exact fun i j _ first other => (second i first).trans (second j other).symm
  obtain ⟨p, d, answer⟩ := recovers ![2, 0] [0, 1] [0, -1] primal dual vertex (Or.inr (by norm_num))
  exact ⟨_, p, d, loaded, primal, dual, vertex, answer⟩

end MarkovDecision
