import MarkovDecision.Proofs.Process.Discounted

namespace MarkovDecision

section Stages

variable {V : Type} {step : Nat → V → V} {last : V} {horizon t : Nat}

-- What the steps make of the last vector, with k stages to go from stage t on.
def backward (step : Nat → V → V) (last : V) : Nat → Nat → V
  | 0, _ => last
  | k + 1, t => step t (backward step last k (t + 1))

def stageVector (step : Nat → V → V) (last : V) (horizon t : Nat) : V := backward step last (horizon - t) t

theorem stageVector_last : stageVector step last horizon horizon = last := by
  rw [stageVector, Nat.sub_self]
  rfl

theorem stageVector_next (below : t < horizon) :
    stageVector step last horizon t = step t (stageVector step last horizon (t + 1)) := by
  rw [stageVector, show horizon - t = horizon - (t + 1) + 1 by omega]
  rfl

end Stages

namespace Process

variable {n : Nat} {K : Type} [Field K]

def followedAt (P : Process n K) (γ : K) (rules : Nat → P.Rule) (last : Fin n → K) (horizon t : Nat) :
    Fin n → K :=
  stageVector (fun i => P.follow γ (rules i)) last horizon t

variable [LinearOrder K]

def optimalAt (P : Process n K) (γ : K) (last : Fin n → K) (horizon t : Nat) : Fin n → K :=
  stageVector (fun _ => P.bellman γ) last horizon t

def greedyAt (P : Process n K) (γ : K) (last : Fin n → K) (horizon t : Nat) : P.Selection :=
  P.greedy γ (P.optimalAt γ last horizon (t + 1))

variable {P : Process n K} {γ : K} {rules : Nat → P.Rule} {last : Fin n → K} {horizon : Nat}

theorem followedAt_greedy (greedy : ∀ t < horizon, rules t = P.sure (P.greedyAt γ last horizon t)) {t : Nat}
    (within : t ≤ horizon) : P.followedAt γ rules last horizon t = P.optimalAt γ last horizon t := by
  have general : ∀ k t, t + k = horizon → backward (fun i => P.follow γ (rules i)) last k t
      = backward (fun _ => P.bellman γ) last k t := by
    intro k
    induction k with
    | zero => exact fun _ _ => rfl
    | succ k ih =>
      intro t stages
      have next : P.optimalAt γ last horizon (t + 1) = backward (fun _ => P.bellman γ) last k (t + 1) := by
        rw [optimalAt, stageVector, show horizon - (t + 1) = k by omega]
      rw [backward, ih (t + 1) (by omega), greedy t (by omega), greedyAt, next]
      exact follow_greedy P γ _
  exact general (horizon - t) t (by omega)

variable [IsStrictOrderedRing K]

theorem follow_mono (stochastic : P.Stochastic) {w : P.Rule} (distribution : P.IsDistribution w)
    (nonneg : 0 ≤ γ) {u v : Fin n → K} (below : ∀ t, u t ≤ v t) (s : Fin n) :
    P.follow γ w u s ≤ P.follow γ w v s := by
  have rise : 0 ≤ P.drift w (v - u) s :=
    drift_ge stochastic distribution (fun t => sub_nonneg.mpr (below t)) s
  rw [← sub_nonneg, follow_sub]
  exact mul_nonneg nonneg rise

theorem followedAt_le (stochastic : P.Stochastic) (nonneg : 0 ≤ γ)
    (distributions : ∀ t < horizon, P.IsDistribution (rules t)) {t : Nat} (within : t ≤ horizon) (s : Fin n) :
    P.followedAt γ rules last horizon t s ≤ P.optimalAt γ last horizon t s := by
  have general : ∀ k t, t + k = horizon → ∀ s, backward (fun i => P.follow γ (rules i)) last k t s
      ≤ backward (fun _ => P.bellman γ) last k t s := by
    intro k
    induction k with
    | zero => exact fun _ _ _ => le_rfl
    | succ k ih =>
      intro t stages s
      have distribution := distributions t (by omega)
      calc P.follow γ (rules t) (backward (fun i => P.follow γ (rules i)) last k (t + 1)) s
          ≤ P.follow γ (rules t) (backward (fun _ => P.bellman γ) last k (t + 1)) s :=
            follow_mono stochastic distribution nonneg (ih (t + 1) (by omega)) s
        _ ≤ P.bellman γ (backward (fun _ => P.bellman γ) last k (t + 1)) s := follow_le_bellman distribution
  exact general (horizon - t) t (by omega) s

end Process

end MarkovDecision
