import MarkovDecision.Proofs.IterationCount

namespace MarkovDecision

variable {n : Nat} {K : Type} [Field K] [LinearOrder K] [FloorRing K]

def StopRule.Within (rule : StopRule) (b : K) (u v : Fin n → K) : Prop :=
  0 ≤ b ∧ match rule with
    | .supremum => ∀ s, |u s - v s| ≤ b
    | .span => ∀ s t, (u s - v s) - (u t - v t) ≤ b

section Change

variable [IsStrictOrderedRing K]

theorem changeOf_exact (rule : StopRule) (u v : Fin n → K) :
    ∃ r, FixpointIteration.changeOf rule (List.zipWith (· - ·) (exactVector u).toList (exactVector v).toList)
      = .finite r ∧ ∀ b, r ≤ b ↔ rule.Within b u v := by
  cases rule with
  | supremum => exact supNorm_change u v
  | span =>
    obtain ⟨low, high, found, _, least⟩ := spanSeminorm_change u v
    exact ⟨high - low, found, least⟩

omit [FloorRing K] in
-- Between the state with the smallest difference and any other, both one-sided bounds are needed.
theorem Dampens.within {γ b : K} {T : (Fin n → K) → Fin n → K} {u v : Fin n → K} (dampens : Dampens γ T)
    (nonneg : 0 ≤ γ) {rule : StopRule} (close : rule.Within b u v) : rule.Within (γ * b) (T u) (T v) := by
  obtain ⟨positive, close⟩ := close
  refine ⟨mul_nonneg nonneg positive, ?_⟩
  cases rule with
  | supremum => exact dampens.contracts u v b close
  | span =>
    intro s t
    obtain ⟨least, _, smallest⟩ := Finset.exists_min_image Finset.univ (fun i => u i - v i) ⟨s, Finset.mem_univ s⟩
    have upper := dampens u v (u least - v least + b) (fun i => by linarith [close i least]) s
    have lower := dampens v u (-(u least - v least)) (fun i => by linarith [smallest i (Finset.mem_univ i)]) t
    linarith

end Change

namespace FixpointIteration

variable {m : Model (Extended K)} {P : Process n K} {γ : K} {policy : Option (Policy (Extended K))}
  {settings : Settings (Extended K)}

theorem step_total (described : m.Describes P) (followable : ∀ p ∈ policy, Followable m p)
    (cut : Scheduled m policy settings) (v : Fin n → K) :
    step m (.infinite (.finite γ)) policy (schedule m policy settings) (exactVector v)
      = .ok (exactVector (operator P γ policy v)) := by
  obtain ⟨parts, cut⟩ := cut
  cases policy with
  | none =>
    rw [step, bellman_exact described rfl cut v]
    rfl
  | some p =>
    have given := followable p rfl
    exact followed_exact described rfl cut given.valid given.stationary given.exact 0 v

theorem limit_exact (nonneg : 0 ≤ γ) (ε : K) {r : K} (small : γ = 0 ∨ r ≤ ε * (1 - γ) / γ) :
    Scalar.le (.finite r) (limit (.finite ε) (.finite γ) : Extended K) = true := by
  unfold limit
  rw [Extended.zero_eq, Extended.lt_finite]
  rcases nonneg.eq_or_lt with zero | discounted
  · rw [← zero, if_neg (by simp)]
    exact Extended.le_infinity r
  · rw [if_pos (decide_eq_true discounted), Extended.one_eq, Extended.finite_sub, Extended.finite_mul,
      Extended.finite_div discounted.ne', Extended.le_finite, decide_eq_true_eq]
    exact small.resolve_left discounted.ne'

variable [IsStrictOrderedRing K]

theorem residuals_dampened {T : (Fin n → K) → Fin n → K} (dampens : Dampens γ T) (nonneg : 0 ≤ γ) (rule : StopRule)
    (u : Fin n → K) : ∃ r : Nat → K,
      (∀ k, residual rule (fun k => exactVector (T^[k] u)) (k + 1) = .finite (r k)) ∧ ∀ k, r (k + 1) ≤ γ * r k := by
  choose r found least using fun k => changeOf_exact rule (T^[k + 1] u) (T^[k] u)
  refine ⟨r, found, fun k => (least (k + 1) _).mpr ?_⟩
  rw [Function.iterate_succ_apply', Function.iterate_succ_apply' T k]
  refine dampens.within nonneg ?_
  rw [← Function.iterate_succ_apply' T k]
  exact (least k (r k)).mp (le_refl _)

omit [FloorRing K] in
theorem power_bound {r : Nat → K} (nonneg : 0 ≤ γ) (shrinks : ∀ k, r (k + 1) ≤ γ * r k) (k : Nat) :
    r k ≤ γ ^ k * r 0 := by
  induction k with
  | zero => rw [pow_zero, one_mul]
  | succ k ih =>
    calc r (k + 1) ≤ γ * r k := shrinks k
      _ ≤ γ * (γ ^ k * r 0) := mul_le_mul_of_nonneg_left ih nonneg
      _ = γ ^ (k + 1) * r 0 := by rw [pow_succ']; ring

end FixpointIteration

section Runs

open FixpointIteration

variable {m : Model (Extended K)} {P : Process n K} {γ ε : K} {settings : Settings (Extended K)}
  [IsStrictOrderedRing K]

-- The changes in the trace shrink by the discount. If the first one is small enough for the cap, or there is no
-- discount, the run converges before or at the cap, without a warning.
theorem residuals_shrink (described : m.Describes P) (stochastic : P.Stochastic) (nonneg : 0 ≤ γ)
    (tolerance : settings.epsilon.value = .finite ε) (capped : 0 < settings.iterations)
    (printable : (settings.verbose && settings.lineLength.isNone) = false) {given : Option (PolicyData (Extended K))}
    {policy : Option (Policy (Extended K))}
    (resolved : (given.mapM PolicyData.resolve : Outcome (Extended K) _) = .ok policy)
    (followable : ∀ p ∈ policy, Followable m p) (cut : Scheduled m policy settings) :
    ∃ result j, ∃ r : Nat → K,
      (valueIteration m (.infinite (.finite γ)) given none settings).runOn Journal.empty = (.ok result, j) ∧
      0 < result.iterations ∧ result.iterations ≤ settings.iterations ∧
      result.trace.rows = (List.range result.iterations).map (fun k => (k + 1, .real (.finite (r k)))) ∧
      (∀ k, k + 1 < result.iterations → r (k + 1) ≤ γ * r k) ∧
      (γ = 0 ∨ γ ^ (settings.iterations - 1) * r 0 ≤ ε * (1 - γ) / γ →
        result.converged = true ∧ j.warnings = []) := by
  have dampens := operator_dampens described stochastic nonneg followable
  obtain ⟨r, measured, shrinks⟩ := residuals_dampened dampens nonneg settings.stopRule 0
  have zeros : exactVector (0 : Fin n → K) = Array.replicate m.stateCount Scalar.zero := by
    rw [described.states, exactVector_zero]
  have swept (k : Nat) : step m (.infinite (.finite γ)) policy (schedule m policy settings)
      (exactVector ((operator P γ policy)^[k] 0)) = .ok (exactVector ((operator P γ policy)^[k + 1] 0)) := by
    rw [Function.iterate_succ_apply']
    exact step_total described followable cut _
  have chosen (k : Nat) : ∃ greedy, decided m (.infinite (.finite γ)) policy (schedule m policy settings)
      (exactVector ((operator P γ policy)^[k] 0)) = .ok greedy := by
    obtain ⟨parts, cut⟩ := cut
    cases policy with
    | none =>
      rw [decided, bellman_exact described rfl cut _]
      exact ⟨_, rfl⟩
    | some p => exact ⟨none, rfl⟩
  choose greedy chosen using chosen
  obtain ⟨n, j, stops, ran, warned⟩ := @run_stops _ _ _ _ _ _ _ (fun k => exactVector ((operator P γ policy)^[k] 0))
    (threshold_limit (Quantity.value?_finite tolerance) _) printable capped zeros swept _ chosen
  rw [← valueIteration_run resolved fun p member => ⟨(followable p member).valid, (followable p member).stationary⟩] at ran
  have reached (n : Nat) (positive : 0 < n) : residual settings.stopRule
      (fun k => exactVector ((operator P γ policy)^[k] 0)) n = .finite (r (n - 1)) := by
    obtain ⟨k, rfl⟩ := Nat.exists_eq_succ_of_ne_zero positive.ne'
    exact measured k
  refine ⟨_, j, r, ran, stops.after, by simpa using stops.within, ?_, fun k _ => shrinks k, fun small => ?_⟩
  · rw [residualRows, Nat.zero_add, Nat.sub_zero, List.range'_eq_map_range, List.map_map]
    refine List.map_congr_left fun k _ => ?_
    rw [Function.comp_apply, Nat.add_comm 1 k, measured]
  · have passed : Scalar.le (residual settings.stopRule (fun k => exactVector ((operator P γ policy)^[k] 0)) n)
        (limit (.finite ε) (.finite γ)) = true := by
      rcases stops.ended with passed | last
      · exact passed
      · rw [reached n stops.after, last, Nat.zero_add]
        exact limit_exact nonneg ε (small.imp_right (power_bound nonneg shrinks _).trans)
    rw [passed, if_pos rfl] at warned
    exact ⟨passed, warned⟩

-- A policy whose first change is a half: by the rule a cap of three is enough, and the changes halve at least.
theorem residuals_shrink_leaving : ∃ result j, ∃ r : Nat → ℚ,
    (valueIteration (.table Process.leaving.table) (.infinite (.finite (1 / 2))) (some (.policy (.stationary #[0, 0])))
      none (.quiet 3 (1 / 4) 0)).runOn Journal.empty = (.ok result, j) ∧
    r 0 = 1 / 2 ∧ result.trace.rows = (List.range result.iterations).map (fun k => (k + 1, .real (.finite (r k)))) ∧
    (∀ k, k + 1 < result.iterations → r (k + 1) ≤ 1 / 2 * r k) ∧
    result.iterations ≤ 3 ∧ result.converged = true ∧ j.warnings = [] := by
  have described := table_describes Process.leaving
  have followable : Followable (.table Process.leaving.table) (Policy.stationary #[0, 0] : Policy (Extended ℚ)) :=
    ⟨actionArray_valid described fun _ => (0 : Fin 2), rfl, trivial⟩
  have tolerance : (Settings.quiet 3 (1 / 4) 0 : Settings (Extended ℚ)).epsilon.value = .finite (1 / 4) := rfl
  have resolved : ((some (.policy (.stationary #[0, 0]))).mapM PolicyData.resolve : Outcome (Extended ℚ) _)
      = .ok (some (.stationary #[0, 0])) := rfl
  obtain ⟨result, j, r, ran, positive, within, rows, shrinks, ends⟩ := residuals_shrink described
    Process.leaving_stochastic (γ := 1 / 2) (by norm_num) tolerance (by decide) rfl resolved
    (by rintro _ ⟨⟩; exact followable) ⟨[List.range 2], rfl⟩
  have first : (valueIteration (.table Process.leaving.table) (.infinite (.finite (1 / 2)))
      (some (.policy (.stationary #[0, 0]))) none (.quiet 3 (1 / 4) 0)).returns Journal.empty (fun found =>
        found.trace.rows.head?.map (fun row => row.2.value) == some (.finite (1 / 2))) = true := by
    decide +kernel
  obtain ⟨found, i, found_ran, first⟩ := InPlace.runOn_of_returns first
  obtain ⟨rfl, -⟩ : result = found ∧ j = i := by simpa using ran.symm.trans found_ran
  have half : r 0 = 1 / 2 := by
    obtain ⟨k, count⟩ := Nat.exists_eq_succ_of_ne_zero positive.ne'
    rw [rows, count, List.range_succ_eq_map] at first
    simpa using first
  obtain ⟨converged, quiet⟩ := ends (Or.inr (by rw [half, Settings.quiet]; norm_num))
  exact ⟨result, j, r, ran, half, rows, shrinks, within, converged, quiet⟩

end Runs

end MarkovDecision
