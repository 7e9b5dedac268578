import MarkovDecision.Proofs.Process.Discounted

namespace MarkovDecision

namespace Process

variable {n : Nat} {K : Type} [Field K]

def transition (P : Process n K) (w : P.Rule) (i j : Fin n) : K := P.drift w (Pi.single j 1) i

variable {P : Process n K} {γ : K} {w : P.Rule}

theorem transition_sum (v : Fin n → K) (s : Fin n) : ∑ j, P.transition w s j * v j = P.drift w v s := by
  have coordinates : v = fun t => ∑ j, v j * (Pi.single j 1 : Fin n → K) t := by
    funext t
    simp [Pi.single_apply]
  calc ∑ j, P.transition w s j * v j
      = ∑ j, ∑ a, w s a * (v j * P.mean (Pi.single j 1) s a) :=
        Finset.sum_congr rfl fun j _ => by
          rw [transition, drift, Finset.sum_mul]
          exact Finset.sum_congr rfl fun a _ => by ring
    _ = ∑ a, w s a * ∑ j, v j * P.mean (Pi.single j 1) s a := by
        rw [Finset.sum_comm]
        exact Finset.sum_congr rfl fun a _ => (Finset.mul_sum ..).symm
    _ = P.drift w v s :=
        Finset.sum_congr rfl fun a _ => by rw [← mean_combination, ← coordinates]

theorem follow_transition (v : Fin n → K) (s : Fin n) :
    P.follow γ w v s = P.ruleReward w s + γ * ∑ j, P.transition w s j * v j := by
  rw [follow_eq, transition_sum]

theorem nonsingular_of_kernel (free : ∀ x : Fin n → K, (∀ s, x s = γ * P.drift w x s) → x = 0) :
    (1 - γ • Matrix.of (P.transition w)).det ≠ 0 := by
  intro singular
  obtain ⟨x, nonzero, solves⟩ := Matrix.exists_mulVec_eq_zero_iff.mpr singular
  refine nonzero (free x fun s => ?_)
  have balance := congrFun solves s
  rw [Matrix.sub_mulVec, Matrix.one_mulVec, Matrix.smul_mulVec, Pi.sub_apply, Pi.smul_apply, smul_eq_mul] at balance
  rw [← transition_sum]
  exact sub_eq_zero.mp balance

variable [LinearOrder K] [IsStrictOrderedRing K]

theorem transition_nonneg (stochastic : P.Stochastic) (distribution : P.IsDistribution w) (i j : Fin n) :
    0 ≤ P.transition w i j :=
  drift_ge stochastic distribution (fun t => by
    by_cases same : t = j
    · rw [same, Pi.single_eq_same]
      exact zero_le_one
    · rw [Pi.single_eq_of_ne same]) i

omit [IsStrictOrderedRing K] in
theorem transition_total (stochastic : P.Stochastic) (distribution : P.IsDistribution w) (i : Fin n) :
    ∑ j, P.transition w i j = 1 := by
  calc ∑ j, P.transition w i j = P.drift w (fun _ => 1) i := by
        rw [← transition_sum]
        exact Finset.sum_congr rfl fun j _ => (mul_one _).symm
    _ = ∑ a, w i a := Finset.sum_congr rfl fun a _ => by rw [mean_const stochastic, mul_one]
    _ = 1 := distribution.total i

theorem transition_nonsingular (stochastic : P.Stochastic) (distribution : P.IsDistribution w)
    (nonneg : 0 ≤ γ) (below : γ < 1) : (1 - γ • Matrix.of (P.transition w)).det ≠ 0 :=
  nonsingular_of_kernel fun _ balance => drift_kernel stochastic distribution nonneg below balance

end Process

end MarkovDecision
