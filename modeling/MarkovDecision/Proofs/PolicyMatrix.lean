import MarkovDecision.Proofs.ExactPasses
import MarkovDecision.Proofs.PolicyValue

namespace MarkovDecision

variable {n : Nat} {K : Type} [Field K] [LinearOrder K] [FloorRing K] {m : Model (Extended K)} {P : Process n K}
  {p : Policy (Extended K)} {γ : K}

theorem policySweep_exact (described : m.Describes P) {goal : Goal (Extended K)}
    (discount : goal.discount = .ok (.finite γ)) {schedule : Schedule} {parts : List (List Nat)}
    (cut : (schedule.chunks n : Outcome (Extended K) _) = .ok parts) (valid : p.validate m none = .ok ())
    (stationary : p.isStationary = true) (exact : p.SumsToOne) (t : Int) (u : Fin n → K)
    {b : SweepBuffers (Extended K)} (room : b.HasSize n) :
    ((SweepBuffers.memory (exactVector u)).policySweep m goal t p schedule).runOn b
      = (.ok (), { b with values := exactVector (P.follow γ (p.rule P) u) }) := by
  obtain rfl := described.states
  rw [SweepBuffers.policySweep_runOn cut _ (values_exact described discount valid stationary exact t u) room,
    ofFn_getD (exactVector_size _)]

variable [IsStrictOrderedRing K]

theorem policySweep_fixed (described : m.Describes P) (stochastic : P.Stochastic) (nonneg : 0 ≤ γ) (below : γ < 1)
    {schedule : Schedule} {parts : List (List Nat)} (cut : (schedule.chunks n : Outcome (Extended K) _) = .ok parts)
    (valid : p.validate m none = .ok ()) (stationary : p.isStationary = true) (exact : p.SumsToOne) (t : Int)
    (u : Fin n → K) {b : SweepBuffers (Extended K)} (room : b.HasSize n) :
    ((SweepBuffers.memory (exactVector u)).policySweep m (.objective (.infinite (.finite γ))) t p schedule).runOn b
        = (.ok (), { b with values := exactVector u }) ↔ u = P.value γ (p.rule P) := by
  have distribution := rule_distribution described valid stationary exact
  have fixed := Process.value_follow stochastic distribution nonneg below
  rw [policySweep_exact described rfl cut valid stationary exact t u room]
  constructor
  · intro same
    have kept : P.follow γ (p.rule P) u = u :=
      exactVector_injective (congrArg SweepBuffers.values (Prod.mk.inj same).2)
    exact Process.value_unique stochastic distribution nonneg below kept fixed
  · rintro rfl
    rw [fixed]

-- The matrix and the rewards of every valid stationary policy give the value of one step under the policy. With
-- a discount below one, the system of its value is not singular, and the solution is what a pass leaves alone.
theorem rewardProcess_follows (described : m.Describes P) (stochastic : P.Stochastic) (unmerged : P.Unmerged)
    {given : PolicyData (Extended K)} (validated : given.validate m none = .ok p)
    (stationary : p.isStationary = true) (exact : p.SumsToOne) (nonneg : 0 ≤ γ) (below : γ < 1) :
    ∃ (t : Matrix (Fin n) (Fin n) K) (r v : Fin n → K),
      RewardProcess.ofPolicy m given = .ok (.ofCells t r) ∧ (∀ i j, 0 ≤ t i j) ∧ (∀ i, ∑ j, t i j = 1) ∧
      (∀ (u : Fin n → K) (s : Fin n),
        m.policyValue (.objective (.infinite (.finite γ))) 0 (s : Nat) p (Reader.ofArray (exactVector u))
          = .ok (.finite (r s + γ * ∑ j, t s j * u j))) ∧
      (1 - γ • t).det ≠ 0 ∧
      (∀ sparse, evaluatePolicy m (.objective (.infinite (.finite γ))) given sparse = .ok (exactVector v)) ∧
      ∀ (schedule : Schedule) (parts : List (List Nat)), (schedule.chunks n : Outcome (Extended K) _) = .ok parts →
        ∀ (u : Fin n → K) (b : SweepBuffers (Extended K)), b.HasSize n →
          (((SweepBuffers.memory (exactVector u)).policySweep m (.objective (.infinite (.finite γ))) 0 p
              schedule).runOn b = (.ok (), { b with values := exactVector u }) ↔ u = v) := by
  obtain ⟨resolved, valid⟩ := PolicyData.validate_ok.mp validated
  have accepted : stationaryPolicy m given = .ok p := stationaryPolicy_ok.mpr ⟨resolved, valid, stationary⟩
  have distribution := rule_distribution described valid stationary exact
  refine ⟨Matrix.of (P.transition (p.rule P)), P.ruleReward (p.rule P), P.value γ (p.rule P),
    ofPolicy_exact described unmerged accepted exact.weights, Process.transition_nonneg stochastic distribution,
    Process.transition_total stochastic distribution, fun u s => ?_,
    Process.transition_nonsingular stochastic distribution nonneg below,
    evaluatePolicy_exact described stochastic unmerged nonneg below accepted exact,
    fun schedule parts cut u b room =>
      policySweep_fixed described stochastic nonneg below cut valid stationary exact 0 u room⟩
  rw [policyValue_exact described valid stationary exact.weights rfl 0 u s, Process.follow_transition]
  rfl

def Policy.undecided : Policy (Extended ℚ) :=
  .randomized #[.perAction [.finite (1 / 2), .finite (1 / 2)], .perAction [.finite 1, .finite 0]]

theorem rewardProcess_follows_leaving :
    ∃ (t : Matrix (Fin 2) (Fin 2) ℚ) (r v : Fin 2 → ℚ),
      RewardProcess.ofPolicy (.table Process.leaving.table) (.policy .undecided) = .ok (.ofCells t r) ∧
      (∀ i, ∑ j, t i j = 1) ∧ (1 - (1 / 2 : ℚ) • t).det ≠ 0 ∧
      evaluatePolicy (.table Process.leaving.table) (.objective (.infinite (.finite (1 / 2)))) (.policy .undecided) false
        = .ok (exactVector v) ∧
      ((SweepBuffers.memory (exactVector v)).policySweep (.table Process.leaving.table)
          (.objective (.infinite (.finite (1 / 2)))) 0 .undecided .serial).runOn (.zeros 2)
        = (.ok (), { (SweepBuffers.zeros 2 : SweepBuffers (Extended ℚ)) with values := exactVector v }) := by
  obtain ⟨_, valid⟩ : ∃ done, Policy.undecided.validate (.table Process.leaving.table) none = .ok done :=
    Outcome.exists_ok (by decide +kernel)
  have validated : (PolicyData.policy .undecided).validate (.table Process.leaving.table) none = .ok .undecided :=
    PolicyData.validate_ok.mpr ⟨rfl, valid⟩
  have exact : Policy.undecided.SumsToOne := by
    intro w member
    rcases List.mem_pair.mp (Array.mem_toList_iff.mpr member) with rfl | rfl
    · exact ⟨[1 / 2, 1 / 2], rfl, by norm_num⟩
    · exact ⟨[1, 0], rfl, by norm_num⟩
  obtain ⟨t, r, v, made, _, total, _, nonsingular, value, fixed⟩ :=
    rewardProcess_follows (table_describes Process.leaving) Process.leaving_stochastic Process.leaving_unmerged
      validated rfl exact (γ := 1 / 2) (by norm_num) (by norm_num)
  exact ⟨t, r, v, made, total, nonsingular, value false,
    (fixed .serial _ rfl v (.zeros 2) (SweepBuffers.zeros_size 2)).mpr rfl⟩

end MarkovDecision
