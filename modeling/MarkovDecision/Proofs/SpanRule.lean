import MarkovDecision.Proofs.StoppingRule

namespace MarkovDecision

deriving instance DecidableEq for ValueFunction

open FixpointIteration

section Span

variable {n : Nat} {K : Type} [Field K] [LinearOrder K] [FloorRing K] [IsStrictOrderedRing K]
  {m : Model (Extended K)} {P : Process n K} {γ ε : K} {settings : Settings (Extended K)}
  {given : Option (PolicyData (Extended K))} {policy : Option (Policy (Extended K))}
  {result : ValueIterationResult (Extended K)} {j j' : Journal (Extended K)}

theorem span_change (described : m.Describes P) (nonneg : 0 ≤ γ) (rule : settings.stopRule = .span)
    (tolerance : settings.epsilon.value = .finite ε) (positive : 0 < ε)
    (resolved : (given.mapM PolicyData.resolve : Outcome (Extended K) _) = .ok policy)
    (exact : ∀ p ∈ policy, p.SumsToOne)
    (ran : (valueIteration m (.infinite (.finite γ)) given none settings).runOn j = (.ok result, j'))
    (converged : result.converged = true) :
    (∀ p ∈ policy, Followable m p) ∧ ∃ u low high,
      result.value = .stationary (exactVector (operator P γ policy u)) ∧
      (∀ s, low ≤ operator P γ policy u s - u s ∧ operator P γ policy u s - u s ≤ high) ∧
      γ * (high - low) ≤ ε * (1 - γ) ∧
      (policy = none → result.policy
        = some (.stationary (P.actionArray (P.greedy γ (operator P γ policy u))))) := by
  obtain ⟨policy', k, read, checked, ran⟩ := valueIteration_parts ran
  obtain rfl : policy' = policy := Except.ok.inj (read.symm.trans resolved)
  have followable : ∀ p ∈ policy', Followable m p := fun p member =>
    ⟨(checked p member).1, (checked p member).2, exact p member⟩
  obtain ⟨limit, p, k, k', made, looped, value, same, greedy⟩ := run_parts ran
  rw [rule] at looped
  rw [same] at converged
  obtain ⟨u, last, residual, passed⟩ := last_sweep described followable looped converged
  obtain ⟨low, high, measured, change, _⟩ := spanSeminorm_change (operator P γ policy' u) u
  rw [residual, changeOf, measured] at passed
  refine ⟨followable, u, low, high, by rw [value, last], change,
    below_threshold tolerance positive nonneg made passed, fun none => ?_⟩
  obtain ⟨buffers, swept, chosen⟩ := greedy none
  obtain ⟨parts, cut⟩ := cut_of_bellman (none ▸ swept)
  subst none
  rw [last, bellman_exact described rfl cut] at swept
  cases swept
  exact chosen

def spanned (epsilon : ℚ) : Settings (Extended ℚ) :=
  { Settings.quiet 10 epsilon 0 with stopRule := .span }

def Process.staying : Process 1 ℚ where
  actionCount _ := 1
  hasAction _ := Nat.one_pos
  branches _ _ := [⟨0, 1, 1⟩]

theorem Process.staying_stochastic : Process.staying.Stochastic := ⟨by decide +kernel, by decide +kernel⟩

theorem staying_follow (w : Process.staying.Rule) (total : ∑ a, w 0 a = 1) (v : Fin 1 → ℚ) :
    Process.staying.follow (1 / 2) w v = fun _ => 1 + v 0 / 2 := by
  funext s
  rw [Subsingleton.elim s 0]
  have worth : ∀ a, Process.staying.actionValue (1 / 2) v 0 a = 1 + v 0 / 2 := by
    intro a
    simp [Process.actionValue, Process.staying, div_eq_inv_mul]
  simp only [Process.follow, worth, ← Finset.sum_mul, total, one_mul]

-- The first sweep changes its only value by one, a change of no span. The run converges there, one off
-- the fixed point, whether it looks for the optimal values or follows the only policy.
theorem converged_span_offset : Process.staying.Stochastic ∧
    ∀ given ∈ [none, some (Policy.stationary #[0])], ∃ result j,
    (valueIteration (.table Process.staying.table) (.infinite (.finite (1 / 2)))
      (given.map PolicyData.policy) none (spanned (1 / 1000))).runOn Journal.empty = (.ok result, j) ∧
    result.converged = true ∧ result.value = .stationary (exactVector ![1]) ∧
    IsUniqueFixpoint (operator Process.staying (1 / 2) given) ![2] ∧
    ¬|(![1] : Fin 1 → ℚ) 0 - ![2] 0| ≤ 1 / 1000 := by
  refine ⟨Process.staying_stochastic, fun given member => ?_⟩
  have steps : ∀ v, operator Process.staying (1 / 2) given v = fun _ => 1 + v 0 / 2 := by
    intro v
    rcases List.mem_pair.mp member with rfl | rfl
    · rw [operator, ← Process.follow_greedy]
      exact staying_follow _ ((Process.sure_distribution _ _).total 0) v
    · exact staying_follow _ (by decide +kernel) v
  have ends : (valueIteration (.table Process.staying.table) (.infinite (.finite (1 / 2)))
      (given.map PolicyData.policy) none (spanned (1 / 1000))).returns Journal.empty (fun result =>
        result.converged && decide (result.value = .stationary (exactVector ![1]))) = true := by
    rcases List.mem_pair.mp member with rfl | rfl <;> decide +kernel
  obtain ⟨result, j, ran, answer⟩ := InPlace.runOn_of_returns ends
  rw [Bool.and_eq_true, decide_eq_true_eq] at answer
  refine ⟨result, j, ran, answer.1, answer.2, fun u => ?_, by norm_num [abs_le]⟩
  rw [steps, funext_iff, funext_iff, Fin.forall_fin_one, Fin.forall_fin_one]
  constructor
  · intro fixed
    change u 0 = 2
    linarith
  · intro same
    rw [same]
    norm_num

-- The values of a converged run differ from the fixed point by almost the same amount everywhere.
theorem converged_within_span (described : m.Describes P) (stochastic : P.Stochastic)
    (nonneg : 0 ≤ γ) (below : γ < 1) (rule : settings.stopRule = .span)
    (tolerance : settings.epsilon.value = .finite ε) (positive : 0 < ε)
    (resolved : (given.mapM PolicyData.resolve : Outcome (Extended K) _) = .ok policy)
    (exact : ∀ p ∈ policy, p.SumsToOne)
    (ran : (valueIteration m (.infinite (.finite γ)) given none settings).runOn j = (.ok result, j'))
    (converged : result.converged = true) :
    ∃ v best, result.value = .stationary (exactVector v) ∧
      IsUniqueFixpoint (operator P γ policy) best ∧
      (∀ s t, (v s - best s) - (v t - best t) ≤ ε) ∧ (γ = 0 → v = best) := by
  obtain ⟨followable, u, low, high, value, change, small, _⟩ :=
    span_change described nonneg rule tolerance positive resolved exact ran converged
  have dampens := operator_dampens described stochastic nonneg followable
  obtain ⟨best, fixpoint⟩ := operator_fixpoint described stochastic nonneg below followable
  have fixed : operator P γ policy best = best := (fixpoint best).mpr rfl
  have above : ∀ s, operator P γ policy u s - best s ≤ γ * -low / (1 - γ) :=
    dampens.le_fixpoint below fixed fun s => (change s).1
  have under : ∀ s, best s - operator P γ policy u s ≤ γ * high / (1 - γ) :=
    dampens.fixpoint_le below fixed fun s => (change s).2
  refine ⟨operator P γ policy u, best, value, fixpoint, fun s t => ?_, fun zero => funext fun s => ?_⟩
  · have range : γ * -low / (1 - γ) + γ * high / (1 - γ) ≤ ε := by
      rw [← add_div, div_le_iff₀ (by linarith)]
      linarith
    linarith [above s, under t]
  · subst zero
    have upper := above s
    have lower := under s
    rw [zero_mul, zero_div] at upper lower
    exact le_antisymm (by linarith) (by linarith)

theorem converged_within_span_leaving : ∃ result j v best,
    (valueIteration (.table Process.leaving.table) (.infinite (.finite (1 / 2))) none none
      (spanned (1 / 100))).runOn Journal.empty = (.ok result, j) ∧ result.converged = true ∧
    result.value = .stationary (exactVector v) ∧
    IsUniqueFixpoint (operator Process.leaving (1 / 2) none) best ∧
    ∀ s t, (v s - best s) - (v t - best t) ≤ 1 / 100 := by
  have ends : (valueIteration (.table Process.leaving.table) (.infinite (.finite (1 / 2))) none none
      (spanned (1 / 100))).returns Journal.empty (fun result => result.converged) = true := by
    decide +kernel
  obtain ⟨result, j, ran, converged⟩ := InPlace.runOn_of_returns ends
  have resolved : (Option.mapM PolicyData.resolve none : Outcome (Extended ℚ) _) = .ok none := rfl
  obtain ⟨v, best, value, fixpoint, close, _⟩ := converged_within_span
    (table_describes Process.leaving) Process.leaving_stochastic (by norm_num) (by norm_num) rfl rfl
    (by norm_num) resolved (by simp) ran converged
  exact ⟨result, j, v, best, ran, converged, value, fixpoint, close⟩

-- Its greedy policy loses no more than the tolerance.
theorem converged_span_greedy (described : m.Describes P) (stochastic : P.Stochastic)
    (nonneg : 0 ≤ γ) (below : γ < 1) (rule : settings.stopRule = .span)
    (tolerance : settings.epsilon.value = .finite ε) (positive : 0 < ε)
    (ran : (valueIteration m (.infinite (.finite γ)) none none settings).runOn j = (.ok result, j'))
    (converged : result.converged = true) :
    ∃ best p w, result.policy = some p ∧ p.validate m none = .ok () ∧ p.isStationary = true ∧
      IsUniqueFixpoint (P.bellman γ) best ∧ IsUniqueFixpoint (P.follow γ (p.rule P)) w ∧
      ∀ s, best s - ε ≤ w s := by
  have resolved : (Option.mapM PolicyData.resolve none : Outcome (Extended K) _) = .ok none := rfl
  obtain ⟨_, u, low, high, _, change, small, chosen⟩ :=
    span_change described nonneg rule tolerance positive resolved (by simp) ran converged
  obtain ⟨best, fixpoint⟩ := Process.exists_optimal stochastic nonneg below
  obtain ⟨w, worth⟩ := Process.exists_value stochastic
    (P.sure_distribution (P.greedy γ (P.bellman γ u))) nonneg below
  refine ⟨best, _, w, chosen rfl, actionArray_valid described _, rfl, fixpoint, ?_, fun s => ?_⟩
  · rw [Policy.rule_stationary]
    exact worth
  · have loss := Process.greedy_value_span stochastic nonneg below change ((fixpoint best).mpr rfl)
      ((worth w).mpr rfl) s
    have within : γ * (high - low) / (1 - γ) ≤ ε := (div_le_iff₀ (by linarith)).mpr small
    linarith

theorem converged_span_greedy_leaving : ∃ result j best p w,
    (valueIteration (.table Process.leaving.table) (.infinite (.finite (1 / 2))) none none
      (spanned (1 / 100))).runOn Journal.empty = (.ok result, j) ∧
    result.converged = true ∧ result.policy = some p ∧
    p.validate (.table Process.leaving.table) none = .ok () ∧ p.isStationary = true ∧
    IsUniqueFixpoint (Process.leaving.bellman (1 / 2)) best ∧
    IsUniqueFixpoint (Process.leaving.follow (1 / 2) (p.rule Process.leaving)) w ∧
    ∀ s, best s - 1 / 100 ≤ w s := by
  have ends : (valueIteration (.table Process.leaving.table) (.infinite (.finite (1 / 2))) none none
      (spanned (1 / 100))).returns Journal.empty (fun result => result.converged) = true := by
    decide +kernel
  obtain ⟨result, j, ran, converged⟩ := InPlace.runOn_of_returns ends
  obtain ⟨best, p, w, chosen, valid, stationary, fixpoint, worth, close⟩ := converged_span_greedy
    (table_describes Process.leaving) Process.leaving_stochastic (by norm_num) (by norm_num) rfl rfl
    (by norm_num) ran converged
  exact ⟨result, j, best, p, w, ran, converged, chosen, valid, stationary, fixpoint, worth, close⟩

end Span

end MarkovDecision
