import MarkovDecision.Proofs.Process.Transition

namespace MarkovDecision

namespace Process

variable {n : Nat} {K : Type} [Field K] {P : Process n K} {γ : K}

def mass (P : Process n K) (s : Fin n) (a : Fin (P.actionCount s)) : K :=
  ((P.branches s a).map Branch.probability).sum

theorem drift_sure (d : P.Selection) (v : Fin n → K) (s : Fin n) : P.drift (P.sure d) v s = P.mean v s (d s) := by
  simp [drift, sure, Pi.single_apply]

variable [LinearOrder K]

structure NearlyStochastic (P : Process n K) (tolerance : K) : Prop where
  positive : P.Positive
  total : ∀ s a, |P.mass s a - 1| ≤ tolerance

variable [IsStrictOrderedRing K] {tolerance : K}

theorem abs_mean_le_mass (positive : P.Positive) {v : Fin n → K} {c : K} (bounded : ∀ t, |v t| ≤ c) (s : Fin n)
    (a : Fin (P.actionCount s)) : |P.mean v s a| ≤ P.mass s a * c := by
  rw [mass, ← List.sum_map_mul_right]
  exact abs_mean_le (u := fun _ => c) positive bounded s a

-- A fixed point x has no greatest entry but zero: |x| ≤ γ mass |x| at the state where it is greatest.
theorem sure_kernel (positive : P.Positive) (nonneg : 0 ≤ γ) {d : P.Selection}
    (damped : ∀ s, γ * P.mass s (d s) < 1) {x : Fin n → K} (balance : ∀ s, x s = γ * P.drift (P.sure d) x s) :
    x = 0 := by
  funext s
  obtain ⟨most, _, greatest⟩ := Finset.exists_max_image Finset.univ (fun t => |x t|) ⟨s, Finset.mem_univ s⟩
  have bound : |x most| ≤ γ * P.mass most (d most) * |x most| := by
    calc |x most| = γ * |P.mean x most (d most)| := by
          rw [balance most, drift_sure, abs_mul, abs_of_nonneg nonneg]
      _ ≤ γ * (P.mass most (d most) * |x most|) :=
          mul_le_mul_of_nonneg_left
            (abs_mean_le_mass positive (fun t => greatest t (Finset.mem_univ t)) most (d most)) nonneg
      _ = γ * P.mass most (d most) * |x most| := (mul_assoc ..).symm
  have zero : |x most| = 0 := by nlinarith [abs_nonneg (x most), damped most]
  exact abs_nonpos_iff.mp ((greatest s (Finset.mem_univ s)).trans zero.le)

theorem sure_nonsingular (positive : P.Positive) (nonneg : 0 ≤ γ) {d : P.Selection}
    (damped : ∀ s, γ * P.mass s (d s) < 1) :
    (1 - γ • Matrix.of (P.transition (P.sure d))).det ≠ 0 :=
  nonsingular_of_kernel fun _ balance => sure_kernel positive nonneg damped balance

theorem NearlyStochastic.damped (nearly : P.NearlyStochastic tolerance) (nonneg : 0 ≤ γ)
    (below : γ * (1 + tolerance) < 1) (s : Fin n) (a : Fin (P.actionCount s)) : γ * P.mass s a < 1 := by
  have heaviest := (abs_le.mp (nearly.total s a)).2
  exact (mul_le_mul_of_nonneg_left (by linarith) nonneg).trans_lt below

end Process

end MarkovDecision
