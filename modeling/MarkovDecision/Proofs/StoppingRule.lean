import MarkovDecision.Proofs.ExactPasses
import MarkovDecision.ValueIteration.Basic

namespace MarkovDecision

namespace FixpointIteration

section Loop

variable {α : Type} [Scalar α] {next : Array α → Outcome α (Array α)} {change : List α → α}
  {threshold : α}

theorem iterate_swept {p : Progress α} {v : Array α} {residual : α} (swept : next p.value = .ok v)
    (changed : residual = change (List.zipWith (· - ·) v.toList p.value.toList)) (fuel done : Nat) (j : Journal α) :
    (iterate next change threshold (fuel + 1) done p).runOn j =
      if Scalar.le residual threshold then (.ok ⟨v, done + 1, residual, true⟩, j.push (.row (done + 1) (.real residual)))
      else (iterate next change threshold fuel (done + 1) ⟨v, done + 1, residual, false⟩).runOn
        (j.push (.row (done + 1) (.real residual))) := by
  subst changed
  have lifted : (InPlace.lift (next p.value) : Journaled α (Array α)).runOn j = (.ok v, j) := by
    rw [InPlace.runOn_lift, swept]
  rw [iterate, InPlace.runOn_bind_ok lifted, InPlace.runOn_bind_ok (Journaled.note_runOn _ _)]
  dsimp only
  cases Scalar.le (change (List.zipWith (· - ·) v.toList p.value.toList)) threshold with
  | true => rfl
  | false => rfl

-- A loop that ends converged ends with a sweep from a vector it had reached. The change of that sweep
-- is what it reports, and passed the test.
theorem iterate_converged (good : Array α → Prop)
    (keeps : ∀ v v', good v → next v = .ok v' → good v') :
    ∀ (fuel done : Nat) {p q : Progress α} {j j' : Journal α}, good p.value → p.converged = false →
    (iterate next change threshold fuel done p).runOn j = (.ok q, j') → q.converged = true →
    ∃ v, good v ∧ next v = .ok q.value ∧
      q.residual = change (List.zipWith (· - ·) q.value.toList v.toList) ∧
      Scalar.le q.residual threshold = true := by
  intro fuel
  induction fuel with
  | zero =>
    intro done p q j j' _ unfinished ran converged
    cases ran
    rw [unfinished] at converged
    cases converged
  | succ fuel ih =>
    intro done p q j j' reached _ ran converged
    obtain ⟨v, _, lifted, ran⟩ := InPlace.runOn_bind_eq_ok ran
    have swept : next p.value = .ok v := (InPlace.lift_eq_ok lifted).1
    obtain ⟨_, noted, _, ran⟩ := InPlace.runOn_bind_eq_ok ran
    dsimp only at ran
    split at ran
    · rename_i passed
      cases ran
      exact ⟨p.value, reached, swept, rfl, passed⟩
    · rename_i refused
      exact ih (done + 1) (keeps _ _ reached swept) (Bool.eq_false_iff.mpr refused) ran converged

end Loop

section Threshold

variable {K : Type} [Field K] [LinearOrder K] [FloorRing K] [IsStrictOrderedRing K] {γ ε r : K}
  {settings : Settings (Extended K)}

-- Without discount every change passes, and then the next values are the fixed point itself.
theorem below_threshold (tolerance : settings.epsilon.value = .finite ε) (positive : 0 < ε)
    (nonneg : 0 ≤ γ) {limit : Extended K} (made : threshold settings (.finite γ) = .ok limit)
    (passed : Scalar.le (.finite r) limit = true) : γ * r ≤ ε * (1 - γ) := by
  unfold threshold at made
  rw [Extended.zero_eq, Extended.lt_finite] at made
  rcases nonneg.eq_or_lt with zero | discounted
  · rw [← zero, zero_mul, sub_zero, mul_one]
    exact positive.le
  · rw [if_pos (decide_eq_true discounted), Quantity.value?_finite tolerance, Outcome.ofOption_some,
      Outcome.ok_bind, Extended.one_eq, Extended.finite_sub, Extended.finite_mul,
      Extended.finite_div discounted.ne'] at made
    cases made
    rw [Extended.le_finite, decide_eq_true_eq, le_div_iff₀ discounted] at passed
    rwa [mul_comm]

end Threshold

section Sweeps

variable {α : Type} [Scalar α] {m : Model α} {o : Objective α} {settings : Settings α}

theorem cut_of_bellman {v : Array α} {buffers : SweepBuffers α}
    (swept : m.bellman (.objective o) v (schedule m none settings) = .ok buffers) :
    ∃ parts, ((schedule m none settings).chunks m.stateCount : Outcome α _) = .ok parts := by
  cases m with
  | flat f =>
    have serial : schedule (.flat f) none settings = .serial := by
      unfold schedule
      cases settings.parallel <;> rfl
    rw [serial]
    exact ⟨_, rfl⟩
  | table t =>
    rcases made : ((schedule (.table t) none settings).chunks t.stateCount : Outcome α _) with e | parts
    · simp only [Model.bellman, SweepMemory.bellmanSweep, InPlace.result, InPlace.runOn_bind,
        InPlace.runOn_lift, made] at swept
      cases swept
    · exact ⟨parts, made⟩

theorem cut_of_followed {v v' : Array α} {p : Policy α} {t : Int} {schedule : Schedule}
    (swept : m.followed (.objective o) t v p schedule = .ok v') :
    ∃ parts, (schedule.chunks m.stateCount : Outcome α _) = .ok parts := by
  rcases made : (schedule.chunks m.stateCount : Outcome α _) with e | parts
  · simp only [Model.followed, SweepMemory.policySweep, InPlace.result, InPlace.runOn_bind,
      InPlace.runOn_lift, made, Outcome.error_bind] at swept
    cases swept
  · exact ⟨parts, rfl⟩

theorem run_result {policy : Option (Policy α)} {discount : α} {result : ValueIterationResult α} {j j' : Journal α}
    (ran : (run m o discount policy settings).runOn j = (.ok result, j')) :
    ∃ limit p k k' greedy, threshold settings discount = .ok limit ∧ k.rows = j.rows ∧
      (iterate (step m o policy (schedule m policy settings)) (changeOf settings.stopRule) limit
        settings.iterations 0 (start m)).runOn k = (.ok p, k') ∧
      (match policy with
        | none => do
          return some (Policy.stationary (← m.bellman (.objective o) p.value (schedule m policy settings)).actions)
        | some _ => .ok none) = (.ok greedy : Outcome α _) ∧
      result = {
        value := .stationary p.value
        policy := greedy
        iterations := p.iterations
        residual := some p.residual
        converged := p.converged
        trace := ⟨stepName, valueName, k'.rows⟩ } := by
  obtain ⟨limit, _, made, ran⟩ := InPlace.runOn_bind_eq_ok ran
  obtain ⟨made, atStart⟩ := InPlace.lift_eq_ok made
  obtain ⟨⟨⟩, k, opened, ran⟩ := InPlace.runOn_bind_eq_ok ran
  obtain ⟨p, k', looped, ran⟩ := InPlace.runOn_bind_eq_ok ran
  obtain ⟨greedy, _, chosen, ran⟩ := InPlace.runOn_bind_eq_ok ran
  obtain ⟨chosen, still⟩ := InPlace.lift_eq_ok chosen
  obtain ⟨_, closing, closed, ran⟩ := InPlace.runOn_bind_eq_ok ran
  refine ⟨limit, p, k, k', greedy, made, atStart ▸ Journaled.begin_rows opened, looped, chosen, ?_⟩
  -- the closing note and the warning leave the rows alone
  have quiet : closing.rows = k'.rows := by
    rw [still] at closed
    cases closed
    exact Journaled.rows_push k' (by simp)
  dsimp only at ran
  split at ran
  · obtain ⟨_, warning, warned, ran⟩ := InPlace.runOn_bind_eq_ok ran
    have quiet' : warning.rows = closing.rows := by
      cases warned
      exact Journaled.rows_push closing (by simp)
    obtain ⟨_, _, read, ran⟩ := InPlace.runOn_bind_eq_ok ran
    cases read
    cases ran
    rw [quiet', quiet]
  · obtain ⟨_, _, read, ran⟩ := InPlace.runOn_bind_eq_ok ran
    cases read
    cases ran
    rw [quiet]

theorem run_parts {policy : Option (Policy α)} {discount : α}
    {result : ValueIterationResult α} {j j' : Journal α}
    (ran : (run m o discount policy settings).runOn j = (.ok result, j')) :
    ∃ limit p k k', threshold settings discount = .ok limit ∧
      (iterate (step m o policy (schedule m policy settings)) (changeOf settings.stopRule) limit
        settings.iterations 0 (start m)).runOn k = (.ok p, k') ∧
      result.value = .stationary p.value ∧ result.converged = p.converged ∧
      (policy = none → ∃ buffers, m.bellman (.objective o) p.value (schedule m policy settings)
        = .ok buffers ∧ result.policy = some (.stationary buffers.actions)) := by
  obtain ⟨limit, p, k, k', greedy, made, _, looped, chosen, rfl⟩ := run_result ran
  refine ⟨limit, p, k, k', made, looped, rfl, rfl, fun none => ?_⟩
  subst none
  obtain ⟨buffers, swept, same⟩ := Outcome.bind_ok.mp chosen
  cases same
  exact ⟨buffers, swept, rfl⟩

theorem valueIteration_parts {discount : α} {given : Option (PolicyData α)}
    {terminal : Option (TerminalValue α)} {result : ValueIterationResult α}
    {j j' : Journal α}
    (ran : (valueIteration m (.infinite discount) given terminal settings).runOn j = (.ok result, j')) :
    ∃ policy k, (given.mapM PolicyData.resolve : Outcome α _) = .ok policy ∧
      (∀ p ∈ policy, p.validate m none = .ok () ∧ p.isStationary = true) ∧
      (run m (.infinite discount) discount policy settings).runOn k = (.ok result, j') := by
  unfold valueIteration at ran
  dsimp only at ran
  split at ran
  · obtain ⟨_, _, thrown, _⟩ := InPlace.runOn_bind_eq_ok ran
    cases thrown
  · obtain ⟨policy, k, read, ran⟩ := InPlace.runOn_bind_eq_ok ran
    have read := (InPlace.lift_eq_ok read).1
    refine ⟨policy, k, ?_⟩
    cases given with
    | none =>
      cases read
      exact ⟨rfl, by simp, ran⟩
    | some g =>
      obtain ⟨p, checked, same⟩ := Outcome.bind_ok.mp read
      cases same
      obtain ⟨q, checked, stationary⟩ := Outcome.bind_ok.mp checked
      obtain ⟨q', resolved, checked⟩ := Outcome.bind_ok.mp checked
      obtain ⟨_, valid, same⟩ := Outcome.bind_ok.mp checked
      cases same
      dsimp only at stationary
      obtain ⟨stationary, same⟩ := Outcome.unless_ok.mp stationary
      cases same
      have whole : ((some g).mapM PolicyData.resolve : Outcome α _) = .ok (some p) := by
        change (g.resolve >>= fun q => pure (some q)) = _
        rw [resolved]
        rfl
      refine ⟨whole, fun q member => ?_, ran⟩
      cases member
      exact ⟨valid, by simpa using stationary⟩

end Sweeps

section Exact

variable {n : Nat} {K : Type} [Field K] [LinearOrder K] [FloorRing K] {m : Model (Extended K)}
  {P : Process n K} {γ : K} {settings : Settings (Extended K)}

def operator (P : Process n K) (γ : K) : Option (Policy (Extended K)) → (Fin n → K) → Fin n → K
  | none => P.bellman γ
  | some p => P.follow γ (p.rule P)

structure Followable (m : Model (Extended K)) (p : Policy (Extended K)) : Prop where
  valid : p.validate m none = .ok ()
  stationary : p.isStationary = true
  exact : p.SumsToOne

variable {policy : Option (Policy (Extended K))}

theorem step_exact (described : m.Describes P) (followable : ∀ p ∈ policy, Followable m p)
    {v' : Array (Extended K)} {v : Fin n → K}
    (swept : step m (.infinite (.finite γ)) policy (schedule m policy settings) (exactVector v) = .ok v') :
    v' = exactVector (operator P γ policy v) := by
  cases policy with
  | none =>
    obtain ⟨buffers, swept, same⟩ := Outcome.bind_ok.mp swept
    obtain ⟨parts, cut⟩ := cut_of_bellman swept
    rw [bellman_exact described rfl cut v] at swept
    cases swept
    cases same
    rfl
  | some p =>
    have given := followable p rfl
    obtain ⟨parts, cut⟩ := cut_of_followed swept
    rw [step, followed_exact described rfl cut given.valid given.stationary given.exact 0 v] at swept
    cases swept
    rfl

variable [IsStrictOrderedRing K]

theorem operator_dampens (described : m.Describes P) (stochastic : P.Stochastic) (nonneg : 0 ≤ γ)
    (followable : ∀ p ∈ policy, Followable m p) : Dampens γ (operator P γ policy) := by
  cases policy with
  | none => exact Process.bellman_dampens stochastic nonneg
  | some p =>
    have given := followable p rfl
    exact Process.follow_dampens stochastic
      (rule_distribution described given.valid given.stationary given.exact) nonneg

theorem operator_contracts (described : m.Describes P) (stochastic : P.Stochastic) (nonneg : 0 ≤ γ)
    (followable : ∀ p ∈ policy, Followable m p) : Contracts γ (operator P γ policy) :=
  (operator_dampens described stochastic nonneg followable).contracts

theorem operator_fixpoint (described : m.Describes P) (stochastic : P.Stochastic) (nonneg : 0 ≤ γ)
    (below : γ < 1) (followable : ∀ p ∈ policy, Followable m p) :
    ∃ best, IsUniqueFixpoint (operator P γ policy) best := by
  cases policy with
  | none => exact Process.exists_optimal stochastic nonneg below
  | some p =>
    have given := followable p rfl
    exact Process.exists_value stochastic
      (rule_distribution described given.valid given.stationary given.exact) nonneg below

omit [IsStrictOrderedRing K] in
-- The last values of a converged loop are one step from others. How much they differ is what the loop
-- reports, and passed the test.
theorem last_sweep (described : m.Describes P) (followable : ∀ p ∈ policy, Followable m p)
    {change : List (Extended K) → Extended K} {limit : Extended K} {p : Progress (Extended K)}
    {j j' : Journal (Extended K)}
    (ran : (iterate (step m (.infinite (.finite γ)) policy (schedule m policy settings)) change limit
      settings.iterations 0 (start m)).runOn j = (.ok p, j')) (converged : p.converged = true) :
    ∃ u, p.value = exactVector (operator P γ policy u) ∧
      p.residual = change (List.zipWith (· - ·) (exactVector (operator P γ policy u)).toList
        (exactVector u).toList) ∧ Scalar.le p.residual limit = true := by
  have zeros : (start m).value = exactVector (0 : Fin n → K) := by
    rw [start, described.states, exactVector_zero]
  obtain ⟨_, ⟨u, rfl⟩, swept, residual, passed⟩ := iterate_converged
    (fun v => ∃ u : Fin n → K, v = exactVector u)
    (fun v v' ⟨u, same⟩ swept => ⟨operator P γ policy u, step_exact described followable (same ▸ swept)⟩)
    settings.iterations 0 ⟨_, zeros⟩ rfl ran converged
  have value := step_exact described followable swept
  exact ⟨u, value, value ▸ residual, passed⟩

theorem last_change (described : m.Describes P) (followable : ∀ p ∈ policy, Followable m p) {ε : K}
    (tolerance : settings.epsilon.value = .finite ε) (positive : 0 < ε) (nonneg : 0 ≤ γ)
    {limit : Extended K} (made : threshold settings (.finite γ) = .ok limit) {p : Progress (Extended K)}
    {j j' : Journal (Extended K)}
    (ran : (iterate (step m (.infinite (.finite γ)) policy (schedule m policy settings)) supNorm limit
      settings.iterations 0 (start m)).runOn j = (.ok p, j')) (converged : p.converged = true) :
    ∃ u r, p.value = exactVector (operator P γ policy u) ∧ p.residual = .finite r ∧
      (∀ s, |operator P γ policy u s - u s| ≤ r) ∧ γ * r ≤ ε * (1 - γ) := by
  obtain ⟨u, value, residual, passed⟩ := last_sweep described followable ran converged
  obtain ⟨r, measured, least⟩ := supNorm_change (operator P γ policy u) u
  have residual : p.residual = .finite r := residual.trans measured
  rw [residual] at passed
  exact ⟨u, r, value, residual, ((least r).mp (le_refl r)).2,
    below_threshold tolerance positive nonneg made passed⟩

end Exact

end FixpointIteration

section Convergence

open FixpointIteration

variable {n : Nat} {K : Type} [Field K] [LinearOrder K] [FloorRing K] [IsStrictOrderedRing K]
  {m : Model (Extended K)} {P : Process n K} {γ ε : K} {settings : Settings (Extended K)}

-- A converged run with the supremum norm is within ε of the fixed point it looks for, and the policy
-- that comes with the optimal values loses at most 2 ε.
theorem converged_within_epsilon (described : m.Describes P) (stochastic : P.Stochastic)
    (nonneg : 0 ≤ γ) (below : γ < 1) (norm : settings.stopRule = .supremum)
    (tolerance : settings.epsilon.value = .finite ε) (positive : 0 < ε)
    {given : Option (PolicyData (Extended K))} {policy : Option (Policy (Extended K))}
    (resolved : (given.mapM PolicyData.resolve : Outcome (Extended K) _) = .ok policy)
    (exact : ∀ p ∈ policy, p.SumsToOne) {terminal : Option (TerminalValue (Extended K))}
    {result : ValueIterationResult (Extended K)} {j j' : Journal (Extended K)}
    (ran : (valueIteration m (.infinite (.finite γ)) given terminal settings).runOn j
      = (.ok result, j')) (converged : result.converged = true) :
    ∃ v best, result.value = .stationary (exactVector v) ∧
      IsUniqueFixpoint (operator P γ policy) best ∧ (∀ s, |v s - best s| ≤ ε) ∧
      (policy = none → ∃ p w, result.policy = some p ∧ p.validate m none = .ok () ∧
        IsUniqueFixpoint (P.follow γ (p.rule P)) w ∧ ∀ s, best s - 2 * ε ≤ w s) := by
  obtain ⟨policy', k, read, checked, ran⟩ := valueIteration_parts ran
  obtain rfl : policy' = policy := Except.ok.inj (read.symm.trans resolved)
  have followable : ∀ p ∈ policy', Followable m p := fun p member =>
    ⟨(checked p member).1, (checked p member).2, exact p member⟩
  obtain ⟨limit, p, k, k', made, looped, value, same, greedy⟩ := run_parts ran
  rw [norm] at looped
  rw [same] at converged
  obtain ⟨u, r, last, _, change, small⟩ :=
    last_change described followable tolerance positive nonneg made looped converged
  obtain ⟨best, fixpoint⟩ := operator_fixpoint described stochastic nonneg below followable
  have close : ∀ s, |operator P γ policy' u s - best s| ≤ ε := fun s =>
    ((operator_contracts described stochastic nonneg followable).distance_next below
      ((fixpoint best).mpr rfl) change s).trans ((div_le_iff₀ (by linarith)).mpr small)
  refine ⟨operator P γ policy' u, best, by rw [value, last], fixpoint, close, fun none => ?_⟩
  subst none
  obtain ⟨buffers, swept, chosen⟩ := greedy rfl
  obtain ⟨parts, cut⟩ := cut_of_bellman swept
  rw [last, bellman_exact described rfl cut] at swept
  cases swept
  obtain ⟨w, worth⟩ := Process.exists_value stochastic
    (P.sure_distribution (P.greedy γ (P.bellman γ u))) nonneg below
  refine ⟨_, w, chosen, actionArray_valid described _, ?_, fun s => ?_⟩
  · rw [Policy.rule_stationary]
    exact worth
  · have here := (abs_le.mp (close s)).1
    have there := (abs_le.mp (Process.greedy_value_close stochastic nonneg below change small
      ((worth w).mpr rfl) s)).2
    change -ε ≤ P.bellman γ u s - best s at here
    linarith

theorem converged_within_epsilon_leaving : ∃ result j v best,
    (valueIteration (.table Process.leaving.table) (.infinite (.finite (1 / 2))) none none
      (.quiet 10 (1 / 100) 0)).runOn Journal.empty = (.ok result, j) ∧ result.converged = true ∧
    result.value = .stationary (exactVector v) ∧
    IsUniqueFixpoint (operator Process.leaving (1 / 2) none) best ∧ (∀ s, |v s - best s| ≤ 1 / 100) ∧
    ∃ p w, result.policy = some p ∧ p.validate (.table Process.leaving.table) none = .ok () ∧
      IsUniqueFixpoint (Process.leaving.follow (1 / 2) (p.rule Process.leaving)) w ∧
      ∀ s, best s - 2 * (1 / 100) ≤ w s := by
  have ends : (match ((valueIteration (.table Process.leaving.table) (.infinite (.finite (1 / 2))) none
      none (.quiet 10 (1 / 100) 0)).runOn Journal.empty).1 with
    | .ok result => result.converged
    | .error _ => false) = true := by decide +kernel
  have resolved : (Option.mapM PolicyData.resolve none : Outcome (Extended ℚ) _) = .ok none := rfl
  rcases ran : (valueIteration (.table Process.leaving.table) (.infinite (.finite (1 / 2))) none none
    (.quiet 10 (1 / 100) 0)).runOn Journal.empty with ⟨_ | result, j⟩
  · rw [ran] at ends
    cases ends
  · rw [ran] at ends
    obtain ⟨v, best, value, fixpoint, close, chosen⟩ := converged_within_epsilon
      (table_describes Process.leaving) Process.leaving_stochastic (by norm_num) (by norm_num) rfl rfl
      (by norm_num) resolved (by simp) ran ends
    exact ⟨result, j, v, best, rfl, ends, value, fixpoint, close, chosen rfl⟩

end Convergence

end MarkovDecision
