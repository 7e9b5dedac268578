import MarkovDecision.Proofs.ShrinkingResiduals
import MarkovDecision.Proofs.SpanRule

namespace MarkovDecision

open FixpointIteration

variable {n : Nat} {K : Type} [Field K] [LinearOrder K] [FloorRing K]

structure Settled (m : Model (Extended K)) (P : Process n K) (γ ε : K)
    (result : ValueIterationResult (Extended K)) : Prop where
  described : m.Describes P
  stochastic : P.Stochastic
  returned : ∃ settings j j', settings.stopRule = .supremum ∧ settings.epsilon.value = .finite ε ∧
    (valueIteration m (.infinite (.finite γ)) none none settings).runOn j = (.ok result, j')
  converged : result.converged = true

def Accurate (γ ε b : K) : Prop :=
  ∀ (n : Nat) (m : Model (Extended K)) (P : Process n K) (result : ValueIterationResult (Extended K)),
    Settled m P γ ε result → ∃ v best, result.value = .stationary (exactVector v) ∧
      IsUniqueFixpoint (P.bellman γ) best ∧ ∀ s, |v s - best s| ≤ b

section Runs

variable [IsStrictOrderedRing K] {m : Model (Extended K)} {P : Process n K} {γ ε b : K}

theorem Settled.accuracy {result : ValueIterationResult (Extended K)} (settled : Settled m P γ ε result)
    (nonneg : 0 ≤ γ) (below : γ < 1) (positive : 0 < ε) :
    ∃ v best r, result.value = .stationary (exactVector v) ∧ result.residual = some (.finite r) ∧
      IsUniqueFixpoint (P.bellman γ) best ∧ (∀ s, |v s - best s| ≤ γ * r / (1 - γ)) ∧
      γ * r ≤ ε * (1 - γ) := by
  obtain ⟨settings, j, j', norm, tolerance, ran⟩ := settled.returned
  obtain ⟨policy, k, read, -, ran⟩ := valueIteration_parts ran
  cases read
  obtain ⟨limit, p, k, k', greedy, made, -, looped, -, rfl⟩ := run_result ran
  rw [norm] at looped
  have followable : ∀ p ∈ (none : Option (Policy (Extended K))), Followable m p := by simp
  obtain ⟨u, r, last, residual, change, small⟩ := last_change settled.described followable tolerance positive
    nonneg made looped settled.converged
  obtain ⟨best, fixpoint⟩ := Process.exists_optimal settled.stochastic nonneg below
  have contracts := Process.bellman_contracts settled.stochastic nonneg
  exact ⟨P.bellman γ u, best, r, congrArg ValueFunction.stationary last, congrArg some residual, fixpoint,
    contracts.distance_next below ((fixpoint best).mpr rfl) change, small⟩

end Runs

section Paying

def Process.paying (ρ : K) : Process 1 K where
  actionCount _ := 1
  hasAction _ := Nat.one_pos
  branches s _ := [⟨s, 1, ρ⟩]

omit [FloorRing K] in
theorem Process.paying_bellman (ρ γ : K) (v : Fin 1 → K) :
    (Process.paying ρ).bellman γ v = fun _ => ρ + γ * v 0 := by
  funext s
  obtain rfl : s = 0 := Subsingleton.elim s 0
  rw [← Process.actionValue_greedy]
  simp [Process.actionValue, Process.paying]

omit [FloorRing K] in
theorem Process.paying_fixpoint (ρ : K) {γ : K} (below : γ ≠ 1) :
    IsUniqueFixpoint ((Process.paying ρ).bellman γ) fun _ => ρ / (1 - γ) := by
  have apart : 1 - γ ≠ 0 := sub_ne_zero.mpr below.symm
  intro v
  rw [Process.paying_bellman, funext_iff, funext_iff, Fin.forall_fin_one, Fin.forall_fin_one, eq_div_iff apart]
  constructor
  · intro fixed
    linear_combination -fixed
  · intro value
    linear_combination -value

variable [IsStrictOrderedRing K] {γ ε ρ : K}

omit [FloorRing K] in
theorem Process.paying_stochastic (ρ : K) : (Process.paying ρ).Stochastic := by
  constructor <;> simp [Process.paying]

-- A payment that passes the test ends the run with its first sweep, so that it is the value.
theorem Process.paying_settles (nonneg : 0 ≤ γ) (pays : 0 ≤ ρ) (small : γ = 0 ∨ ρ ≤ ε * (1 - γ) / γ) :
    ∃ result, Settled (.table (paying ρ).table) (paying ρ) γ ε result ∧
      result.value = .stationary (exactVector fun _ : Fin 1 => ρ) := by
  have described := table_describes (paying ρ)
  let values (k : Nat) := exactVector (((paying ρ).bellman γ)^[k] 0)
  have first : values 0 = Array.replicate 1 Scalar.zero := (exactVector_zero 1).symm
  have swept (k : Nat) : step (.table (paying ρ).table) (.infinite (.finite γ)) none
      (schedule (.table (paying ρ).table) none (.quiet 1 ε 0)) (values k) = .ok (values (k + 1)) := by
    simp only [values, Function.iterate_succ_apply']
    exact step_total described (by simp) ⟨[List.range 1], rfl⟩ _
  have chosen (k : Nat) : ∃ greedy, decided (.table (paying ρ).table) (.infinite (.finite γ)) none
      (schedule (.table (paying ρ).table) none (.quiet 1 ε 0)) (values k) = .ok greedy := by
    rw [decided, bellman_exact described rfl rfl]
    exact ⟨_, rfl⟩
  choose greedy chosen using chosen
  have tolerance : (Settings.quiet 1 ε 0 : Settings (Extended K)).epsilon.value = .finite ε := rfl
  have made := threshold_limit (Quantity.value?_finite tolerance) (.finite γ)
  obtain ⟨count, j, stops, ran, -⟩ := run_stops made rfl Nat.one_pos first swept chosen
  -- the cap allows one sweep only
  obtain rfl : count = 1 := Nat.le_antisymm stops.within stops.after
  obtain ⟨r, measured, least⟩ := supNorm_change ((paying ρ).bellman γ 0) 0
  have change : r ≤ ρ := (least ρ).mpr ⟨pays, fun s => by simp [paying_bellman, abs_of_nonneg pays]⟩
  have passed : Scalar.le (residual .supremum values 1) (limit (.finite ε) (.finite γ)) = true := by
    have found : residual .supremum values 1 = .finite r := measured
    rw [found]
    exact limit_exact nonneg ε (small.imp_right change.trans)
  refine ⟨_, ⟨described, paying_stochastic ρ, ⟨_, _, j, rfl, tolerance, ran⟩, passed⟩, ?_⟩
  have value : values 1 = exactVector fun _ : Fin 1 => ρ := by
    simp only [values, Function.iterate_one, paying_bellman, Pi.zero_apply, mul_zero, add_zero]
  exact congrArg ValueFunction.stationary value

end Paying

section Accuracy

variable [IsStrictOrderedRing K] {γ ε : K}

theorem accurate_iff (nonneg : 0 ≤ γ) (below : γ < 1) (positive : 0 < ε) (b : K) :
    Accurate γ ε b ↔ (if γ = 0 then 0 else ε) ≤ b := by
  have rest : 0 < 1 - γ := sub_pos.mpr below
  constructor
  · intro accurate
    let ρ := ε * (1 - γ) / γ
    have pays : 0 ≤ ρ := by positivity
    obtain ⟨result, settled, value⟩ := Process.paying_settles nonneg pays (Or.inr le_rfl)
    obtain ⟨v, best, same, fixpoint, close⟩ := accurate 1 _ _ result settled
    have reached : v = fun _ => ρ := exactVector_injective (ValueFunction.stationary.inj (same.symm.trans value))
    have optimal : best = fun _ => ρ / (1 - γ) :=
      (Process.paying_fixpoint ρ below.ne best).mp ((fixpoint best).mpr rfl)
    have near := close 0
    rw [reached, optimal, abs_sub_comm] at near
    refine le_trans ?_ near
    split
    · exact abs_nonneg _
    · next discounted =>
      have short : ρ / (1 - γ) - ρ = ε := by
        simp only [ρ]
        field_simp
        ring
      rw [short]
      exact le_abs_self ε
  · intro enough n m P result settled
    obtain ⟨v, best, r, value, -, fixpoint, close, small⟩ := settled.accuracy nonneg below positive
    refine ⟨v, best, value, fixpoint, fun s => (close s).trans (le_trans ?_ enough)⟩
    split
    · next zero => rw [zero, zero_mul, zero_div]
    · exact (div_le_iff₀ rest).mpr small

-- The reported change bounds the distance of each run, ε is the least bound of all runs with discount, and
-- ε γ / (1 - γ) is no bound of all runs for discounts below one half.
theorem guaranteed_accuracy (nonneg : 0 ≤ γ) (below : γ < 1) (positive : 0 < ε) :
    (∀ (n : Nat) (m : Model (Extended K)) (P : Process n K) (result : ValueIterationResult (Extended K)),
      Settled m P γ ε result → ∃ v best r, result.value = .stationary (exactVector v) ∧
        result.residual = some (.finite r) ∧ IsUniqueFixpoint (P.bellman γ) best ∧
        ∀ s, |v s - best s| ≤ γ * r / (1 - γ)) ∧
      (∀ b, Accurate γ ε b ↔ (if γ = 0 then 0 else ε) ≤ b) ∧
      (Accurate γ ε (ε * γ / (1 - γ)) ↔ γ = 0 ∨ 1 / 2 ≤ γ) := by
  refine ⟨fun n m P result settled => ?_, accurate_iff nonneg below positive, ?_⟩
  · obtain ⟨v, best, r, value, residual, fixpoint, close, -⟩ := settled.accuracy nonneg below positive
    exact ⟨v, best, r, value, residual, fixpoint, close⟩
  · have rest : 0 < 1 - γ := sub_pos.mpr below
    rw [accurate_iff nonneg below positive]
    split
    · next zero => simp [zero]
    · next discounted =>
      have half : ε ≤ ε * γ / (1 - γ) ↔ 1 / 2 ≤ γ := by
        rw [le_div_iff₀ rest, mul_le_mul_iff_right₀ positive]
        constructor <;> intro h <;> linarith
      rw [half, or_iff_right discounted]

theorem guaranteed_accuracy_quarter : (∃ result v best r,
      Settled (.table (Process.paying 3).table) (Process.paying 3) (1 / 4 : ℚ) 1 result ∧
      result.value = .stationary (exactVector v) ∧ result.residual = some (.finite r) ∧
      IsUniqueFixpoint ((Process.paying 3).bellman (1 / 4)) best ∧
      ∀ s, |v s - best s| ≤ 1 / 4 * r / (1 - 1 / 4)) ∧
    Accurate (1 / 4 : ℚ) 1 1 ∧ ¬Accurate (1 / 4 : ℚ) 1 (1 / 3) := by
  obtain ⟨measured, least, missed⟩ := guaranteed_accuracy (γ := (1 / 4 : ℚ)) (ε := 1)
    (by norm_num) (by norm_num) (by norm_num)
  obtain ⟨result, settled, -⟩ := Process.paying_settles (γ := (1 / 4 : ℚ)) (ε := 1) (ρ := 3)
    (by norm_num) (by norm_num) (Or.inr (by norm_num))
  obtain ⟨v, best, r, answer⟩ := measured _ _ _ result settled
  refine ⟨⟨result, v, best, r, settled, answer⟩, (least 1).mpr (by norm_num), ?_⟩
  have third : (1 : ℚ) * (1 / 4) / (1 - 1 / 4) = 1 / 3 := by norm_num
  rw [← third, missed]
  norm_num

-- A state that pays three: the first sweep changes its value by just as much as the test allows. What is
-- still to come is worth one, not a third or less.
theorem converged_short : (Process.paying (3 : ℚ)).Stochastic ∧ ∃ result j,
    (valueIteration (.table (Process.paying (3 : ℚ)).table) (.infinite (.finite (1 / 4))) none none
      (.quiet 10 1 0)).runOn Journal.empty = (.ok result, j) ∧
    result.converged = true ∧ result.value = .stationary (exactVector ![3]) ∧
    IsUniqueFixpoint ((Process.paying (3 : ℚ)).bellman (1 / 4)) ![4] ∧
    ¬|(![3] : Fin 1 → ℚ) 0 - ![4] 0| ≤ 1 * (1 / 4) / (1 - 1 / 4) := by
  have ends : (valueIteration (.table (Process.paying (3 : ℚ)).table) (.infinite (.finite (1 / 4 : ℚ))) none none
      (.quiet 10 1 0)).returns Journal.empty (fun result =>
        result.converged && decide (result.value = .stationary (exactVector ![3]))) = true := by
    decide +kernel
  obtain ⟨result, j, ran, answer⟩ := InPlace.runOn_of_returns ends
  rw [Bool.and_eq_true, decide_eq_true_eq] at answer
  have fixpoint := Process.paying_fixpoint (3 : ℚ) (γ := 1 / 4) (by norm_num)
  have value : (fun _ : Fin 1 => (3 : ℚ) / (1 - 1 / 4)) = ![4] := by
    funext s
    rw [Subsingleton.elim s 0]
    norm_num
  rw [value] at fixpoint
  exact ⟨Process.paying_stochastic 3, result, j, ran, answer.1, answer.2, fixpoint, by norm_num [abs_le]⟩

end Accuracy

end MarkovDecision
