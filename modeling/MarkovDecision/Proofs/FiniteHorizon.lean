import MarkovDecision.Proofs.ExactPasses
import MarkovDecision.Proofs.Process.Horizon
import MarkovDecision.Proofs.StageMemory
import MarkovDecision.Proofs.StagePolicy
import MarkovDecision.ValueIteration.Basic

namespace MarkovDecision

open BackwardInduction

variable {n : Nat} {K : Type} [Field K] [LinearOrder K] [FloorRing K]

def Process.optimalStages (P : Process n K) (γ : K) (last : Fin n → K) (horizon : Nat) :
    Nat → Stages (Extended K) :=
  .filled horizon n (fun t => exactVector (P.optimalAt γ last horizon t))
    fun t => P.actionArray (P.greedyAt γ last horizon t)

def Process.followedStages (P : Process n K) (γ : K) (rules : Nat → P.Rule) (last : Fin n → K)
    (horizon : Nat) : Nat → Stages (Extended K) :=
  .filled horizon n (fun t => exactVector (P.followedAt γ rules last horizon t)) fun _ => Array.replicate n 0

variable {m : Model (Extended K)} {P : Process n K} {o : Objective (Extended K)} {γ : K} {last : Fin n → K}
  {horizon : Nat}

section Sweeps

variable {t : Nat}

theorem sweep_optimal (described : m.Describes P) (discount : o.discount = .ok (.finite γ))
    (below : t < horizon) : (sweep Stages.memory m o none t).runOn (P.optimalStages γ last horizon (t + 1))
      = (.ok (), P.optimalStages γ last horizon t) := by
  obtain rfl := described.states
  have discount : (Goal.objective o).discount = .ok (.finite γ) := discount
  have next : P.bellman γ (P.optimalAt γ last horizon (t + 1)) = P.optimalAt γ last horizon t :=
    (stageVector_next below).symm
  have choices := choices_exact described discount (P.optimalAt γ last horizon (t + 1))
  rw [next] at choices
  exact Stages.filled_bellmanSweep (fun k => exactVector (P.optimalAt γ last horizon k))
    (fun k => P.actionArray (P.greedyAt γ last horizon k)) discount (columnar_choice described discount _)
    below (exactVector_size _) (actionArray_size P _) choices

theorem sweep_followed (described : m.Describes P) (discount : o.discount = .ok (.finite γ))
    (below : t < horizon) {p : Policy (Extended K)} (valid : p.validate m (some (.int horizon)) = .ok ())
    (exact : p.StagesSumToOne) :
    (sweep Stages.memory m o (some p) t).runOn (P.followedStages γ (p.rules P) last horizon (t + 1))
      = (.ok (), P.followedStages γ (p.rules P) last horizon t) := by
  obtain rfl := described.states
  have discount : (Goal.objective o).discount = .ok (.finite γ) := discount
  have next : P.follow γ ((p.atStage t).rule P) (P.followedAt γ (p.rules P) last horizon (t + 1))
      = P.followedAt γ (p.rules P) last horizon t := (stageVector_next below).symm
  have values := values_exact described discount (Policy.atStage_valid valid below)
    (Policy.atStage_stationary p t) (exact _ (Policy.atStage_listed valid below)) t
    (P.followedAt γ (p.rules P) last horizon (t + 1))
  rw [next] at values
  refine (InPlace.runOn_bind_ok (by rw [InPlace.runOn_lift, Policy.atStage_known valid below])).trans ?_
  exact Stages.filled_policySweep (fun k => exactVector (P.followedAt γ (p.rules P) last horizon k))
    (fun _ => Array.replicate m.stateCount 0) below (exactVector_size _) rfl values

end Sweeps

section Runs

variable {terminal : TerminalValue (Extended K)} {settings : Settings (Extended K)}

theorem finiteValueIteration_optimal (described : m.Describes P) (discount : o.discount = .ok (.finite γ))
    (room : Tensor.fits settings.capacity [horizon + 1, n] = true)
    (printable : (settings.verbose && settings.lineLength.isNone) = false)
    (ended : terminal.vector n = .ok (exactVector last)) (j : Journal (Extended K)) :
    ∃ result j', (finiteValueIteration m o horizon none terminal settings).runOn j = (.ok result, j') ∧
      result.value = .staged (Array.ofFn fun t : Fin (horizon + 1) =>
        exactVector (P.optimalAt γ last horizon t)) ∧
      result.policy = some (.markov (Array.ofFn fun t : Fin horizon =>
        P.actionArray (P.greedyAt γ last horizon t))) := by
  obtain rfl := described.states
  have last_row : terminal.vector m.stateCount = .ok (exactVector (P.optimalAt γ last horizon horizon)) := by
    rw [ended, Process.optimalAt, stageVector_last]
  have read : (none : Option (PolicyData (Extended K))).mapM
      (fun data => data.validate m (some (.int horizon))) = .ok none := rfl
  exact finiteValueIteration_returns room printable read last_row
    (fun _ below => sweep_optimal described discount below) j

theorem finiteValueIteration_followed (described : m.Describes P) (discount : o.discount = .ok (.finite γ))
    (room : Tensor.fits settings.capacity [horizon + 1, n] = true)
    (printable : (settings.verbose && settings.lineLength.isNone) = false)
    (ended : terminal.vector n = .ok (exactVector last)) {given : PolicyData (Extended K)}
    {p : Policy (Extended K)} (valid : given.validate m (some (.int horizon)) = .ok p)
    (exact : p.StagesSumToOne) (j : Journal (Extended K)) :
    ∃ result j', (finiteValueIteration m o horizon (some given) terminal settings).runOn j = (.ok result, j') ∧
      result.value = .staged (Array.ofFn fun t : Fin (horizon + 1) =>
        exactVector (P.followedAt γ (p.rules P) last horizon t)) := by
  obtain rfl := described.states
  obtain ⟨_, checked⟩ := PolicyData.validate_ok.mp valid
  have last_row : terminal.vector m.stateCount
      = .ok (exactVector (P.followedAt γ (p.rules P) last horizon horizon)) := by
    rw [ended, Process.followedAt, stageVector_last]
  have read : (some given).mapM (fun data => data.validate m (some (.int horizon))) = .ok (some p) := by
    rw [Option.mapM_some, valid]
    rfl
  obtain ⟨result, j', ran, value, _⟩ := finiteValueIteration_returns room printable read last_row
    (fun _ below => sweep_followed described discount below checked exact) j
  exact ⟨result, j', ran, value⟩

end Runs

-- Without a policy the rows are the best values of the stages, with a policy they are its values.
-- So no policy comes above the rows of the former, at any stage and state, and the policy it
-- returns comes up to them.
theorem finiteHorizon_optimal [IsStrictOrderedRing K] (described : m.Describes P) (stochastic : P.Stochastic)
    (nonneg : 0 ≤ γ) {terminal : Option (TerminalValue (Extended K))} {settings : Settings (Extended K)}
    (room : Tensor.fits settings.capacity [horizon + 1, n] = true)
    (printable : (settings.verbose && settings.lineLength.isNone) = false)
    (ended : (terminal.getD .zero).vector n = .ok (exactVector last)) (j : Journal (Extended K)) :
    ∃ result j' stages, ∃ v : Fin (horizon + 1) → Fin n → K,
      (valueIteration m (.finite (.finite γ) horizon) none terminal settings).runOn j = (.ok result, j') ∧
      result.value = .staged (Array.ofFn fun t => exactVector (v t)) ∧ v (Fin.last horizon) = last ∧
      result.policy = some (.markov stages) ∧
      (∀ given p, given.validate m (some (.int horizon)) = .ok p → p.StagesSumToOne → ∀ k,
        ∃ found k', ∃ u : Fin (horizon + 1) → Fin n → K,
          (valueIteration m (.finite (.finite γ) horizon) (some given) terminal settings).runOn k
            = (.ok found, k') ∧
          found.value = .staged (Array.ofFn fun t => exactVector (u t)) ∧ ∀ t s, u t s ≤ v t s) ∧
      ∀ k, ∃ found k',
        (valueIteration m (.finite (.finite γ) horizon) (some (.policy (.markov stages))) terminal
          settings).runOn k = (.ok found, k') ∧ found.value = result.value := by
  have discount : (Objective.finite (Extended.finite γ) horizon).discount = .ok (.finite γ) := rfl
  obtain ⟨result, j', ran, value, policy⟩ :=
    finiteValueIteration_optimal described discount room printable ended j
  refine ⟨result, j', _, fun t => P.optimalAt γ last horizon t, ran, value, stageVector_last, policy, ?_, ?_⟩
  · intro given p valid exact k
    obtain ⟨found, k', followed, found_value⟩ :=
      finiteValueIteration_followed described discount room printable ended valid exact k
    refine ⟨found, k', _, followed, found_value, fun t s => ?_⟩
    obtain ⟨_, checked⟩ := PolicyData.validate_ok.mp valid
    exact Process.followedAt_le stochastic nonneg (Policy.rules_distributions described checked exact)
      (Nat.le_of_lt_succ t.isLt) s
  · intro k
    obtain ⟨found, k', followed, found_value⟩ := finiteValueIteration_followed described discount room
      printable ended (stagePolicy_valid described (P.greedyAt γ last horizon) horizon)
      (stagePolicy_exact P _ horizon) k
    refine ⟨found, k', followed, ?_⟩
    rw [found_value, value]
    refine congrArg (ValueFunction.staged ∘ Array.ofFn) (funext fun t => congrArg exactVector ?_)
    exact Process.followedAt_greedy (fun i below => stagePolicy_rules below) (Nat.le_of_lt_succ t.isLt)

theorem finiteHorizon_optimal_leaving : ∃ result j stages, ∃ v : Fin 3 → Fin 2 → ℚ,
    (valueIteration (.table Process.leaving.table) (.finite (.finite 1) 2) none
      (some (.ofVector (exactVector ![1, 3]))) (.quiet 10 1 (1 / 4))).runOn Journal.empty = (.ok result, j) ∧
    result.value = .staged (Array.ofFn fun t => exactVector (v t)) ∧ v (Fin.last 2) = ![1, 3] ∧
    result.policy = some (.markov stages) ∧ ∃ found k,
      (valueIteration (.table Process.leaving.table) (.finite (.finite 1) 2) (some (.policy (.markov stages)))
        (some (.ofVector (exactVector ![1, 3]))) (.quiet 10 1 (1 / 4))).runOn Journal.empty = (.ok found, k) ∧
      found.value = result.value := by
  let settings : Settings (Extended ℚ) := .quiet 10 1 (1 / 4)
  have printable : (settings.verbose && settings.lineLength.isNone) = false := rfl
  have room : Tensor.fits settings.capacity [2 + 1, 2] = true := by decide
  have ended : ((some (TerminalValue.ofVector (exactVector ![1, 3]))).getD .zero).vector 2
      = (.ok (exactVector ![1, 3]) : Outcome (Extended ℚ) _) := rfl
  obtain ⟨result, j, stages, v, ran, value, last, policy, _, again⟩ :=
    finiteHorizon_optimal (table_describes Process.leaving) Process.leaving_stochastic (γ := 1) zero_le_one
      room printable ended Journal.empty
  exact ⟨result, j, stages, v, ran, value, last, policy, again Journal.empty⟩

end MarkovDecision
