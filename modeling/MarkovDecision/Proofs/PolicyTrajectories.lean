import MarkovDecision.Proofs.FiniteHorizon
import MarkovDecision.Proofs.Process.Trajectories

namespace MarkovDecision

variable {n : Nat} {K : Type} [Field K] [LinearOrder K] [FloorRing K] [IsStrictOrderedRing K]
  {m : Model (Extended K)} {P : Process n K} {γ : K} {last : Fin n → K} {horizon : Nat}

-- The stages that a policy has beyond the horizon do not matter. A run is refused only if its rows cannot be
-- set aside or its opening not be printed.
theorem evaluation_averages (described : m.Describes P) (stochastic : P.Stochastic)
    (terminal : Option (TerminalValue (Extended K))) (settings : Settings (Extended K))
    (ended : (terminal.getD .zero).vector n = .ok (exactVector last)) {given : PolicyData (Extended K)}
    {p : Policy (Extended K)} (validated : given.validate m (some (.int horizon)) = .ok p)
    (exact : p.StagesSumToOne) :
    (∀ j result j', (valueIteration m (.finite (.finite γ) horizon) (some given) terminal settings).runOn j
        = (.ok result, j') →
      ∃ v : Fin (horizon + 1) → Fin n → K, result.value = .staged (Array.ofFn fun t => exactVector (v t)) ∧
        ∀ t s, v t s = ∑ x ∈ P.trajectories s (horizon - t),
          Process.chance (p.rules P) t x * Process.payoff γ last s x) ∧
    (Tensor.fits settings.capacity [horizon + 1, n] = true → (settings.verbose && settings.lineLength.isNone) = false →
      ∀ j, ∃ result j', (valueIteration m (.finite (.finite γ) horizon) (some given) terminal settings).runOn j
        = (.ok result, j')) := by
  have discount : (Objective.finite (Extended.finite γ) horizon).discount = .ok (.finite γ) := rfl
  obtain ⟨_, valid⟩ := PolicyData.validate_ok.mp validated
  constructor
  · intro j result j' ran
    obtain ⟨room, printable⟩ := finiteValueIteration_starts ran
    rw [described.states] at room
    obtain ⟨result', _, ran', value⟩ :=
      finiteValueIteration_followed described discount room printable ended validated exact j
    obtain rfl : result = result' := Except.ok.inj (Prod.mk.inj (ran.symm.trans ran')).1
    exact ⟨_, value, fun t s => Process.followedAt_expectation stochastic
      (Policy.rules_distributions described valid exact) (Nat.le_of_lt_succ t.isLt) s⟩
  · intro room printable j
    obtain ⟨result, j', ran, _⟩ :=
      finiteValueIteration_followed described discount room printable ended validated exact j
    exact ⟨result, j', ran⟩

def Policy.wavering : Policy (Extended ℚ) :=
  .markovRandomized #[#[.perAction [.finite (1 / 2), .finite (1 / 2)], .perAction [.finite 1]],
    #[.perAction [.finite 1], .perAction [.finite 1]], #[.perAction [.finite 0, .finite 1], .perAction [.finite 1]]]

theorem evaluation_averages_leaving : ∃ result j, ∃ v : Fin 3 → Fin 2 → ℚ,
    (valueIteration (.table Process.leaving.table) (.finite (.finite (1 / 2)) 2) (some (.policy .wavering))
      (some (.ofVector (exactVector ![1, 3]))) (.quiet 10 1 (1 / 4))).runOn Journal.empty = (.ok result, j) ∧
    result.value = .staged (Array.ofFn fun t => exactVector (v t)) ∧
    ∀ t s, v t s = ∑ x ∈ Process.leaving.trajectories s (2 - t),
      Process.chance (Policy.wavering.rules Process.leaving) t x * Process.payoff (1 / 2) ![1, 3] s x := by
  obtain ⟨_, valid⟩ : ∃ done, Policy.wavering.validate (.table Process.leaving.table) (some (.int 2)) = .ok done :=
    Outcome.exists_ok (by decide +kernel)
  have validated : (PolicyData.policy .wavering).validate (.table Process.leaving.table) (some (.int 2))
      = .ok .wavering := PolicyData.validate_ok.mpr ⟨rfl, valid⟩
  have exact : Policy.wavering.StagesSumToOne := by
    have whole (ps : List ℚ) (total : ps.sum = 1) : ∃ qs : List ℚ,
        Weights.perAction (ps.map Extended.finite) = .perAction (qs.map .finite) ∧ qs.sum = 1 := ⟨ps, rfl, total⟩
    intro q listed
    obtain ⟨states, member, rfl⟩ := List.mem_map.mp listed
    intro w inside
    simp only [List.mem_cons, List.not_mem_nil, or_false] at member
    rcases member with rfl | rfl | rfl <;>
      simp only [List.mem_toArray, List.mem_cons, List.not_mem_nil, or_false] at inside <;>
      rcases inside with rfl | rfl
    · exact whole [1 / 2, 1 / 2] (by norm_num)
    · exact whole [1] (by norm_num)
    · exact whole [1] (by norm_num)
    · exact whole [1] (by norm_num)
    · exact whole [0, 1] (by norm_num)
    · exact whole [1] (by norm_num)
  obtain ⟨averages, returns⟩ := evaluation_averages (table_describes Process.leaving) Process.leaving_stochastic
    (γ := 1 / 2) (some (.ofVector (exactVector ![1, 3]))) (.quiet 10 1 (1 / 4)) rfl validated exact
  obtain ⟨result, j, ran⟩ := returns (by decide) rfl Journal.empty
  obtain ⟨v, value, average⟩ := averages _ _ _ ran
  exact ⟨result, j, v, ran, value, average⟩

end MarkovDecision
