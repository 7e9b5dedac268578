import MarkovDecision.Proofs.Process.Discounted

namespace MarkovDecision

namespace Process

variable {n : Nat} {K : Type} [Field K] [LinearOrder K]

noncomputable def improve (P : Process n K) (γ : K) (d : P.Selection) : P.Selection :=
  P.greedy γ (P.value γ (P.sure d))

noncomputable def round (P : Process n K) (γ : K) (d : P.Selection) (i : Nat) : P.Selection :=
  (P.improve γ)^[i] d

variable {P : Process n K} {γ : K} {d : P.Selection}

theorem round_next (i : Nat) : P.round γ d (i + 1) = P.improve γ (P.round γ d i) :=
  Function.iterate_succ_apply' _ _ _

theorem round_improve (i : Nat) : P.round γ (P.improve γ d) i = P.round γ d (i + 1) :=
  (Function.iterate_succ_apply _ _ _).symm

variable [IsStrictOrderedRing K]

theorem value_sure (stochastic : P.Stochastic) (nonneg : 0 ≤ γ) (below : γ < 1) (d : P.Selection) :
    P.follow γ (P.sure d) (P.value γ (P.sure d)) = P.value γ (P.sure d) :=
  value_follow stochastic (P.sure_distribution d) nonneg below

theorem improve_value (stochastic : P.Stochastic) (nonneg : 0 ≤ γ) (below : γ < 1) (d : P.Selection)
    (s : Fin n) : P.value γ (P.sure d) s ≤ P.value γ (P.sure (P.improve γ d)) s :=
  improvement stochastic (P.sure_distribution d) nonneg below (value_sure stochastic nonneg below d)
    (value_sure stochastic nonneg below _) s

theorem stable_optimal (stochastic : P.Stochastic) (nonneg : 0 ≤ γ) (below : γ < 1)
    (stable : P.improve γ d = d) : P.bellman γ (P.value γ (P.sure d)) = P.value γ (P.sure d) := by
  refine optimal_of_stable ?_
  have fixed := value_sure stochastic nonneg below d
  have same : P.greedy γ (P.value γ (P.sure d)) = d := stable
  rw [same]
  exact fixed

theorem equal_optimal (stochastic : P.Stochastic) (nonneg : 0 ≤ γ) (below : γ < 1)
    (equal : P.value γ (P.sure (P.improve γ d)) = P.value γ (P.sure d)) :
    P.bellman γ (P.value γ (P.sure d)) = P.value γ (P.sure d) := by
  refine optimal_of_stable ?_
  have fixed := value_sure stochastic nonneg below (P.improve γ d)
  rw [equal] at fixed
  exact fixed

section Rounds

variable {k : Nat}

theorem round_value_le (stochastic : P.Stochastic) (nonneg : 0 ≤ γ) (below : γ < 1) {i j : Nat}
    (order : i ≤ j) (s : Fin n) :
    P.value γ (P.sure (P.round γ d i)) s ≤ P.value γ (P.sure (P.round γ d j)) s := by
  induction order with
  | refl => exact le_refl _
  | step _ ih =>
    rw [round_next]
    exact ih.trans (improve_value stochastic nonneg below _ s)

-- If a selection came back at j, all values between would be equal, so that the selection after
-- next of i would be the next one.
theorem round_fresh (stochastic : P.Stochastic) (nonneg : 0 ≤ γ) (below : γ < 1)
    (moves : ∀ i < k, P.round γ d (i + 1) ≠ P.round γ d i) {i j : Nat} (order : i < j)
    (within : j ≤ k) : P.round γ d i ≠ P.round γ d j := by
  intro back
  have equal : P.value γ (P.sure (P.round γ d (i + 1))) = P.value γ (P.sure (P.round γ d i)) := by
    funext s
    refine le_antisymm ?_ (round_value_le stochastic nonneg below (Nat.le_succ i) s)
    rw [back]
    exact round_value_le stochastic nonneg below order s
  have settled : P.round γ d (i + 2) = P.round γ d (i + 1) := by
    calc P.round γ d (i + 2) = P.greedy γ (P.value γ (P.sure (P.round γ d (i + 1)))) := round_next (i + 1)
      _ = P.greedy γ (P.value γ (P.sure (P.round γ d i))) := by rw [equal]
      _ = P.round γ d (i + 1) := (round_next i).symm
  rcases Nat.lt_or_ge (i + 1) k with inner | last
  · exact moves (i + 1) inner settled
  · have next : j = i + 1 := by omega
    rw [next] at back
    exact moves i (by omega) back.symm

theorem rounds_le (stochastic : P.Stochastic) (nonneg : 0 ≤ γ) (below : γ < 1)
    (moves : ∀ i < k, P.round γ d (i + 1) ≠ P.round γ d i) : k + 1 ≤ ∏ s, P.actionCount s := by
  have distinct : Function.Injective fun i : Fin (k + 1) => P.round γ d i := by
    intro i j same
    rcases lt_trichotomy i j with before | equal | after
    · exact absurd same (round_fresh stochastic nonneg below moves before (Nat.lt_succ_iff.mp j.isLt))
    · exact equal
    · exact absurd same.symm
        (round_fresh stochastic nonneg below moves after (Nat.lt_succ_iff.mp i.isLt))
  have counted := Fintype.card_le_of_injective _ distinct
  rwa [Fintype.card_fin, Fintype.card_pi, Finset.prod_congr rfl fun s _ => Fintype.card_fin _] at counted

end Rounds

end Process

end MarkovDecision
