import MarkovDecision.PolicyIteration
import MarkovDecision.Proofs.ExactPasses
import MarkovDecision.Proofs.PolicyValue
import MarkovDecision.Proofs.Process.Improvement

namespace MarkovDecision

namespace PolicyIteration

def rounds {α : Type} (improve : Array Int → Outcome α (Array α × Array Int)) :
    Nat → Array Int → Outcome α (List (Array Int × Array α))
  | 0, _ => .ok []
  | fuel + 1, actions => do
    let (value, next) ← improve actions
    if changedActions actions next == 0 then return [(actions, value)]
    return (actions, value) :: (← rounds improve fuel next)

section Loop

variable {α : Type} {improve : Array Int → Outcome α (Array α × Array Int)}

theorem iterate_failed {fuel done : Nat} {p : Progress α} {e : Failure α} (round : improve p.actions = .error e)
    (j : Journal α) : (iterate improve (fuel + 1) done p).runOn j = (.error e, j) := by
  rw [iterate, round]
  rfl

theorem iterate_opened {fuel done : Nat} {p : Progress α} {value : Array α} {next : Array Int}
    (round : improve p.actions = .ok (value, next)) (j : Journal α) :
    (iterate improve (fuel + 1) done p).runOn j
      = if changedActions p.actions next == 0 then
          (.ok ⟨value, next, done + 1, true⟩, j.push (.row (done + 1) (.whole (changedActions p.actions next))))
        else (iterate improve fuel (done + 1) ⟨value, next, done + 1, false⟩).runOn
          (j.push (.row (done + 1) (.whole (changedActions p.actions next)))) := by
  rw [iterate, round, InPlace.runOn_bind_ok (InPlace.runOn_lift _ j)]
  dsimp only
  rw [InPlace.runOn_bind_ok (Journaled.note_runOn _ j)]
  cases changedActions p.actions next == 0 with
  | true => rfl
  | false => rfl

theorem rounds_of_iterate (fuel : Nat) : ∀ {done : Nat} {p q : Progress α} {j j' : Journal α},
    (iterate improve (fuel + 1) done p).runOn j = (.ok q, j') →
    ∃ before last, rounds improve (fuel + 1) p.actions = .ok (before ++ [last]) ∧
      q.iterations = done + before.length + 1 ∧ q.value = last.2 := by
  induction fuel with
  | zero =>
    intro done p q j j' ran
    cases round : improve p.actions with
    | error e =>
      rw [iterate_failed round] at ran
      cases ran
    | ok found =>
      obtain ⟨value, next⟩ := found
      have last : rounds improve 1 p.actions = .ok ([] ++ [(p.actions, value)]) := by
        rw [rounds, round, Outcome.ok_bind]
        exact ite_id _
      rw [iterate_opened round] at ran
      refine ⟨[], _, last, ?_⟩
      split at ran <;> cases ran <;> exact ⟨rfl, rfl⟩
  | succ fuel ih =>
    intro done p q j j' ran
    cases round : improve p.actions with
    | error e =>
      rw [iterate_failed round] at ran
      cases ran
    | ok found =>
      obtain ⟨value, next⟩ := found
      rw [iterate_opened round] at ran
      rw [rounds, round, Outcome.ok_bind]
      split at ran
      · rename_i same
        cases ran
        exact ⟨[], (p.actions, value), if_pos same, rfl, rfl⟩
      · rename_i changed
        obtain ⟨before, last, following, count, kept⟩ := ih ran
        refine ⟨(p.actions, value) :: before, last, (if_neg changed).trans ?_, ?_, kept⟩
        · rw [following]
          rfl
        · rw [count, List.length_cons]
          omega

end Loop

theorem changedActions_eq_zero {before after : Array Int} (size : after.size = before.size) :
    changedActions before after = 0 ↔ after = before := by
  unfold changedActions
  rw [List.length_eq_zero_iff, List.filter_eq_nil_iff]
  constructor
  · intro same
    refine Array.ext size fun i inside within => ?_
    have cell := same (after[i], before[i]) (by
      rw [List.mem_iff_getElem]
      exact ⟨i, by simp [inside, within], by simp⟩)
    simpa using cell
  · intro same x member
    rw [same] at member
    obtain ⟨i, inside, rfl⟩ := List.mem_iff_getElem.mp member
    simp

theorem changedActions_zero {n : Nat} {K : Type} {P : Process n K} (d e : P.Selection) :
    changedActions (P.actionArray d) (P.actionArray e) = 0 ↔ e = d := by
  rw [changedActions_eq_zero (by simp [Process.actionArray])]
  constructor
  · intro same
    funext s
    have cell := congrArg (·[(s : Nat)]?) same
    exact Fin.ext (by simpa [Process.actionArray] using cell)
  · exact congrArg P.actionArray

theorem initialActions_ok {α : Type} [Scalar α] {m : Model α} {initial : Option (PolicyData α)} {first : Array Int}
    (known : initialActions m initial = .ok first) : initial = none ∧ first = Array.replicate m.stateCount 0 ∨
      (Policy.stationary first).validate m none = .ok () := by
  cases initial with
  | none =>
    cases known
    exact Or.inl ⟨rfl, rfl⟩
  | some given =>
    obtain ⟨p, validated, known⟩ := Outcome.bind_ok.mp known
    obtain ⟨_, valid⟩ := PolicyData.validate_ok.mp validated
    cases p with
    | stationary actions =>
      cases known
      exact Or.inr valid
    | _ => cases known

theorem policyIteration_starts {α : Type} [Scalar α] {m : Model α} {o : Objective α} {initial : Option (PolicyData α)}
    {settings : Settings α} {sparse : Bool} {result : PolicyIterationResult α} {j j' : Journal α}
    (ran : (policyIteration m o initial settings sparse).runOn j = (.ok result, j')) :
    (settings.verbose && settings.lineLength.isNone) = false ∧
      ∃ actions, initialActions m initial = .ok actions := by
  cases o with
  | infinite discount =>
    obtain ⟨_, k, opened, ran⟩ := InPlace.runOn_bind_eq_ok ran
    obtain ⟨actions, _, known, _⟩ := InPlace.runOn_bind_eq_ok ran
    exact ⟨(Journaled.begin_ok opened).1, actions, (InPlace.lift_eq_ok known).1⟩
  | _ => cases ran

section Frame

variable {α : Type}

def Progress.result (q : Progress α) (rows : List (Nat × Quantity α)) : PolicyIterationResult α :=
  ⟨q.value, .stationary q.actions, q.iterations, q.converged, ⟨stepName, valueName, rows⟩⟩

def opened [Scalar α] (m : Model α) (γ : α) (sparse : Bool) (j : Journal α) : Journal α :=
  j.push (.opening (algorithm sparse) valueName (.infinite γ) m.stateCount)

def Progress.closed (q : Progress α) (j : Journal α) : Journal α :=
  if q.converged then j.push (.closing true)
  else (j.push (.closing false)).push (.warning (.unstablePolicy q.iterations))

theorem Progress.closed_rows (q : Progress α) (j : Journal α) : (q.closed j).rows = j.rows := by
  have closing := Journaled.rows_push j (e := .closing q.converged) (by simp)
  unfold closed
  cases done : q.converged with
  | true => rwa [done] at closing
  | false =>
    rw [done] at closing
    exact (Journaled.rows_push _ (by simp)).trans closing

theorem Progress.closed_warnings (q : Progress α) {j : Journal α} (finished : q.converged = true) :
    (q.closed j).warnings = j.warnings := by
  rw [closed, if_pos finished]
  exact Journaled.warnings_push j (by simp)

variable [Scalar α] {m : Model α} {γ : α} {settings : Settings α} {initial : Option (PolicyData α)} {first : Array Int}

theorem opened_rows (m : Model α) (γ : α) (sparse : Bool) (j : Journal α) : (opened m γ sparse j).rows = j.rows :=
  Journaled.rows_push j (by simp)

theorem opened_warnings (m : Model α) (γ : α) (sparse : Bool) (j : Journal α) :
    (opened m γ sparse j).warnings = j.warnings :=
  Journaled.warnings_push j (by simp)

theorem policyIteration_loop (printable : (settings.verbose && settings.lineLength.isNone) = false)
    (known : initialActions m initial = .ok first) (sparse : Bool) (j : Journal α) :
    (policyIteration m (.infinite γ) initial settings sparse).runOn j
      = match (iterate (improve m (.infinite γ) sparse) settings.iterations 0 ⟨#[], first, 0, false⟩).runOn
          (opened m γ sparse j) with
        | (.ok q, k) => (.ok (q.result k.rows), q.closed k)
        | (.error e, k) => (.error e, k) := by
  have opening : (Journaled.begin settings (algorithm sparse) valueName (.infinite γ) m.stateCount).runOn j
      = (.ok (), opened m γ sparse j) := by
    unfold Journaled.begin
    rw [printable]
    rfl
  unfold policyIteration
  dsimp only
  rw [InPlace.runOn_bind_ok opening, known, InPlace.runOn_bind_ok (InPlace.runOn_lift _ _), InPlace.runOn_bind]
  rcases (iterate (improve m (.infinite γ) sparse) settings.iterations 0 ⟨#[], first, 0, false⟩).runOn
    (opened m γ sparse j) with ⟨e | q, k⟩
  · rfl
  · dsimp only
    rw [InPlace.runOn_bind_ok (Journaled.note_runOn _ k), ← q.closed_rows k]
    obtain ⟨_, _, _, _ | _⟩ := q <;> rfl

end Frame

section Ends

variable {n : Nat} {K : Type} [Field K] [LinearOrder K] {P : Process n K} {γ : K}

theorem stable_test (P : Process n K) (γ : K) (d : P.Selection) :
    (changedActions (P.actionArray d) (P.actionArray (P.improve γ d)) == 0)
      = decide (P.improve γ d = d) := by
  rw [Bool.eq_iff_iff, beq_iff_eq, changedActions_zero, decide_eq_true_eq]

noncomputable def evaluation (P : Process n K) (γ : K) (d : P.Selection) :
    Array Int × Array (Extended K) :=
  (P.actionArray d, exactVector (P.value γ (P.sure d)))

noncomputable def advanced (P : Process n K) (γ : K) (d : P.Selection) (done : Nat) :
    Progress (Extended K) :=
  ⟨exactVector (P.value γ (P.sure d)), P.actionArray (P.improve γ d), done + 1,
    decide (P.improve γ d = d)⟩

-- How a loop ends that starts at d with `fuel` further rounds after the first: the last evaluation is
-- that of round k.
structure Ends (P : Process n K) (γ : K) (d : P.Selection) (fuel done k : Nat)
    (q : Progress (Extended K)) : Prop where
  within : k ≤ fuel
  value : q.value = exactVector (P.value γ (P.sure (P.round γ d k)))
  actions : q.actions = P.actionArray (P.round γ d (k + 1))
  iterations : q.iterations = done + k + 1
  moves : ∀ i < k, P.round γ d (i + 1) ≠ P.round γ d i
  converged : q.converged = true ↔ P.round γ d (k + 1) = P.round γ d k
  capped : q.converged = false → k = fuel

theorem ends_first (d : P.Selection) (fuel done : Nat) (last : P.improve γ d = d ∨ fuel = 0) :
    Ends P γ d fuel done 0 (advanced P γ d done) where
  within := Nat.zero_le fuel
  value := rfl
  actions := rfl
  iterations := rfl
  moves i none := absurd none (Nat.not_lt_zero i)
  converged := decide_eq_true_iff
  capped refused := by
    rcases last with stable | single
    · exact absurd (decide_eq_true stable) (Bool.eq_false_iff.mp refused)
    · exact single.symm

theorem ends_later {d : P.Selection} {fuel done k : Nat} {q : Progress (Extended K)}
    (moved : P.improve γ d ≠ d) (ends : Ends P γ (P.improve γ d) fuel (done + 1) k q) :
    Ends P γ d (fuel + 1) done (k + 1) q where
  within := Nat.succ_le_succ ends.within
  value := by rw [ends.value, Process.round_improve]
  actions := by rw [ends.actions, Process.round_improve]
  iterations := by rw [ends.iterations]; omega
  moves i inside := by
    cases i with
    | zero => exact moved
    | succ i =>
      have later := ends.moves i (Nat.lt_of_succ_lt_succ inside)
      rwa [Process.round_improve, Process.round_improve] at later
  converged := by rw [ends.converged, Process.round_improve, Process.round_improve]
  capped refused := congrArg (· + 1) (ends.capped refused)

-- No selection comes twice, so as many rounds as there are selections reach one that is left as it is.
theorem Ends.converges [IsStrictOrderedRing K] (stochastic : P.Stochastic) (nonneg : 0 ≤ γ) (below : γ < 1)
    {d : P.Selection} {fuel done k : Nat} {q : Progress (Extended K)} (ends : Ends P γ d fuel done k q)
    (enough : ∏ s, P.actionCount s ≤ fuel + 1) : q.converged = true := by
  by_contra refused
  have refused := Bool.eq_false_iff.mpr refused
  have full := ends.capped refused
  -- the last round moved as well
  have moves : ∀ i < k + 1, P.round γ d (i + 1) ≠ P.round γ d i := by
    intro i inside
    rcases Nat.lt_succ_iff_lt_or_eq.mp inside with before | last
    · exact ends.moves i before
    · rw [last]
      intro stable
      rw [ends.converged.mpr stable] at refused
      cases refused
  have counted := Process.rounds_le stochastic nonneg below moves
  omega

end Ends

section Rounds

variable {n : Nat} {K : Type} [Field K] [LinearOrder K] [FloorRing K]
  {m : Model (Extended K)} {P : Process n K} {γ : K}

theorem initialActions_exact (described : m.Describes P) {initial : Option (PolicyData (Extended K))}
    {actions : Array Int} (known : initialActions m initial = .ok actions) :
    ∃ d, actions = P.actionArray d := by
  rcases initialActions_ok known with ⟨_, rfl⟩ | valid
  · refine ⟨fun s => ⟨0, P.hasAction s⟩, Array.ext_getElem? fun i => ?_⟩
    rw [Array.getElem?_replicate, Process.actionArray, Array.getElem?_ofFn, described.states]
    rfl
  · exact valid_stationary described valid

variable [IsStrictOrderedRing K]

theorem evaluate_selection (described : m.Describes P) (stochastic : P.Stochastic)
    (unmerged : P.Unmerged) (nonneg : 0 ≤ γ) (below : γ < 1) (d : P.Selection) (sparse : Bool) :
    evaluatePolicy m (.objective (.infinite (.finite γ)))
      (.policy (.stationary (P.actionArray d))) sparse = .ok (exactVector (P.value γ (P.sure d))) := by
  have accepted : stationaryPolicy m (.policy (.stationary (P.actionArray d))) = .ok (.stationary (P.actionArray d)) :=
    stationaryPolicy_ok.mpr ⟨rfl, actionArray_valid described d, rfl⟩
  have evaluated := evaluatePolicy_exact described stochastic unmerged nonneg below accepted trivial sparse
  rwa [Policy.rule_stationary] at evaluated

theorem improve_exact (described : m.Describes P) (stochastic : P.Stochastic) (unmerged : P.Unmerged)
    (nonneg : 0 ≤ γ) (below : γ < 1) (sparse : Bool) (d : P.Selection) :
    improve m (.infinite (.finite γ)) sparse (P.actionArray d)
      = .ok (exactVector (P.value γ (P.sure d)), P.actionArray (P.improve γ d)) := by
  have swept : m.bellman (.objective (.infinite (.finite γ))) (exactVector (P.value γ (P.sure d))) .serial
      = _ := bellman_exact described rfl rfl (P.value γ (P.sure d))
  rw [improve, evaluate_selection described stochastic unmerged nonneg below d sparse, Outcome.ok_bind, swept]
  rfl

theorem iterate_round (described : m.Describes P) (stochastic : P.Stochastic) (unmerged : P.Unmerged)
    (nonneg : 0 ≤ γ) (below : γ < 1) (sparse : Bool) (fuel done : Nat) (d : P.Selection)
    {p : Progress (Extended K)} (actions : p.actions = P.actionArray d) (j : Journal (Extended K)) :
    ∃ j', j'.warnings = j.warnings ∧
      (iterate (improve m (.infinite (.finite γ)) sparse) (fuel + 1) done p).runOn j
        = if P.improve γ d = d then (.ok (advanced P γ d done), j')
          else (iterate (improve m (.infinite (.finite γ)) sparse) fuel (done + 1)
            (advanced P γ d done)).runOn j' := by
  have round := improve_exact described stochastic unmerged nonneg below sparse d
  rw [← actions] at round
  refine ⟨j.push (.row (done + 1) (.whole (changedActions (P.actionArray d) (P.actionArray (P.improve γ d))))),
    Journaled.warnings_push j (by simp), ?_⟩
  rw [iterate_opened round, actions, stable_test, advanced]
  by_cases stable : P.improve γ d = d
  · rw [if_pos stable, if_pos (decide_eq_true stable), decide_eq_true stable]
  · rw [if_neg stable, if_neg (by simpa using stable), decide_eq_false stable]

theorem rounds_round (described : m.Describes P) (stochastic : P.Stochastic) (unmerged : P.Unmerged)
    (nonneg : 0 ≤ γ) (below : γ < 1) (sparse : Bool) (fuel : Nat) (d : P.Selection) :
    rounds (improve m (.infinite (.finite γ)) sparse) (fuel + 1) (P.actionArray d)
      = if P.improve γ d = d then .ok [evaluation P γ d]
        else (do return evaluation P γ d :: (← rounds (improve m (.infinite (.finite γ)) sparse) fuel
          (P.actionArray (P.improve γ d)))) := by
  have round := improve_exact described stochastic unmerged nonneg below sparse d
  rw [rounds, round, Outcome.ok_bind]
  dsimp only
  rw [stable_test]
  by_cases stable : P.improve γ d = d
  · rw [if_pos stable, if_pos (decide_eq_true stable)]
    rfl
  · rw [if_neg stable, if_neg (by simpa using stable)]
    rfl

theorem iterate_exact (described : m.Describes P) (stochastic : P.Stochastic) (unmerged : P.Unmerged)
    (nonneg : 0 ≤ γ) (below : γ < 1) (sparse : Bool) (fuel : Nat) :
    ∀ (done : Nat) (d : P.Selection) (p : Progress (Extended K)) (j : Journal (Extended K)),
    p.actions = P.actionArray d →
    ∃ k q j', (iterate (improve m (.infinite (.finite γ)) sparse) (fuel + 1) done p).runOn j
        = (.ok q, j') ∧ j'.warnings = j.warnings ∧
      rounds (improve m (.infinite (.finite γ)) sparse) (fuel + 1) (P.actionArray d)
        = .ok ((List.range (k + 1)).map fun i => evaluation P γ (P.round γ d i)) ∧
      Ends P γ d fuel done k q := by
  induction fuel with
  | zero =>
    intro done d p j actions
    obtain ⟨j', quiet, ran⟩ := iterate_round described stochastic unmerged nonneg below sparse 0 done d
      actions j
    have listed := rounds_round described stochastic unmerged nonneg below sparse 0 d
    refine ⟨0, advanced P γ d done, j', ran.trans (ite_id _), quiet, listed.trans ?_,
      ends_first d 0 done (Or.inr rfl)⟩
    exact ite_id _
  | succ fuel ih =>
    intro done d p j actions
    obtain ⟨j', quiet, ran⟩ := iterate_round described stochastic unmerged nonneg below sparse (fuel + 1)
      done d actions j
    have listed := rounds_round described stochastic unmerged nonneg below sparse (fuel + 1) d
    by_cases stable : P.improve γ d = d
    · rw [if_pos stable] at ran listed
      exact ⟨0, _, j', ran, quiet, listed, ends_first d _ done (Or.inl stable)⟩
    · rw [if_neg stable] at ran listed
      obtain ⟨k, q, j'', later, same, following, ends⟩ :=
        ih (done + 1) (P.improve γ d) (advanced P γ d done) j' rfl
      refine ⟨k + 1, q, j'', ran.trans later, same.trans quiet, ?_, ends_later stable ends⟩
      rw [listed, following, Outcome.ok_bind, Outcome.pure_eq, List.range_succ_eq_map (n := k + 1),
        List.map_cons, List.map_map]
      rfl

structure Shows (result : PolicyIterationResult (Extended K)) (q : Progress (Extended K)) : Prop where
  value : result.value = q.value
  policy : result.policy = .stationary q.actions
  iterations : result.iterations = q.iterations
  converged : result.converged = q.converged

theorem policyIteration_exact (described : m.Describes P) (stochastic : P.Stochastic)
    (unmerged : P.Unmerged) (nonneg : 0 ≤ γ) (below : γ < 1) {settings : Settings (Extended K)}
    (cap : 0 < settings.iterations) (printable : (settings.verbose && settings.lineLength.isNone) = false)
    {initial : Option (PolicyData (Extended K))} {d : P.Selection}
    (known : initialActions m initial = .ok (P.actionArray d)) (sparse : Bool)
    (j : Journal (Extended K)) :
    ∃ k q result j', (policyIteration m (.infinite (.finite γ)) initial settings sparse).runOn j
        = (.ok result, j') ∧ (q.converged = true → j'.warnings = j.warnings) ∧
      rounds (improve m (.infinite (.finite γ)) sparse) settings.iterations (P.actionArray d)
        = .ok ((List.range (k + 1)).map fun i => evaluation P γ (P.round γ d i)) ∧
      Ends P γ d (settings.iterations - 1) 0 k q ∧ Shows result q := by
  obtain ⟨fuel, same⟩ : ∃ fuel, settings.iterations = fuel + 1 := ⟨settings.iterations - 1, by omega⟩
  obtain ⟨k, q, j', looped, quiet, listed, ends⟩ := iterate_exact described stochastic unmerged nonneg
    below sparse fuel 0 d ⟨#[], P.actionArray d, 0, false⟩ (opened m (.finite γ) sparse j) rfl
  rw [policyIteration_loop printable known, same, looped]
  refine ⟨k, q, _, _, rfl, fun finished => ?_, listed, ends, rfl, rfl, rfl, rfl⟩
  rw [q.closed_warnings finished, quiet, opened_warnings]

end Rounds

end PolicyIteration

section Results

open PolicyIteration

variable {n : Nat} {K : Type} [Field K] [LinearOrder K] [FloorRing K] [IsStrictOrderedRing K]
  {m : Model (Extended K)} {P : Process n K} {γ : K} {initial : Option (PolicyData (Extended K))}
  {settings : Settings (Extended K)} {sparse : Bool} {result : PolicyIterationResult (Extended K)}
  {j j' : Journal (Extended K)}

structure Returned (m : Model (Extended K)) (P : Process n K) (γ : K)
    (initial : Option (PolicyData (Extended K))) (settings : Settings (Extended K)) (sparse : Bool)
    (result : PolicyIterationResult (Extended K)) (last : P.Selection) : Prop where
  value : result.value = exactVector (P.value γ (P.sure last))
  policy : result.policy = .stationary (P.actionArray (P.improve γ last))
  converged : result.converged = true ↔ P.improve γ last = last
  evaluated : ∃ actions before, initialActions m initial = .ok actions ∧
    rounds (improve m (.infinite (.finite γ)) sparse) settings.iterations actions
      = .ok (before ++ [evaluation P γ last])

theorem policyIteration_returned (described : m.Describes P) (stochastic : P.Stochastic)
    (unmerged : P.Unmerged) (nonneg : 0 ≤ γ) (below : γ < 1) (cap : 0 < settings.iterations)
    (ran : (policyIteration m (.infinite (.finite γ)) initial settings sparse).runOn j = (.ok result, j')) :
    ∃ last, Returned m P γ initial settings sparse result last := by
  obtain ⟨printable, actions, known⟩ := policyIteration_starts ran
  obtain ⟨d, rfl⟩ := initialActions_exact described known
  obtain ⟨k, q, result', _, again, _, listed, ends, shows⟩ := policyIteration_exact described stochastic
    unmerged nonneg below cap printable known sparse j
  obtain rfl : result' = result := Except.ok.inj (Prod.mk.inj (again.symm.trans ran)).1
  rw [List.range_succ, List.map_append] at listed
  refine ⟨P.round γ d k, shows.value.trans ends.value, ?_, ?_, _, _, known, listed⟩
  · rw [shows.policy, ends.actions, Process.round_next]
  · rw [shows.converged, ends.converged, Process.round_next]

theorem evaluate_le_optimal (described : m.Describes P) (stochastic : P.Stochastic)
    (unmerged : P.Unmerged) (nonneg : 0 ≤ γ) (below : γ < 1) {v : Fin n → K}
    (optimal : P.bellman γ v = v) {p : Policy (Extended K)} (valid : p.validate m none = .ok ())
    (stationary : p.isStationary = true) (exact : p.SumsToOne) (sparse : Bool) :
    ∃ u, evaluatePolicy m (.objective (.infinite (.finite γ))) (.policy p) sparse = .ok (exactVector u) ∧
      ∀ s, u s ≤ v s := by
  have distribution := rule_distribution described valid stationary exact
  have accepted : stationaryPolicy m (.policy p) = .ok p := stationaryPolicy_ok.mpr ⟨rfl, valid, stationary⟩
  exact ⟨_, evaluatePolicy_exact described stochastic unmerged nonneg below accepted exact sparse,
    Process.rule_le_optimal stochastic distribution nonneg below optimal
      (Process.value_follow stochastic distribution nonneg below)⟩

-- A converged run returns the optimal value and the lowest optimal actions, whatever it started from
-- and however it solved its systems. An unconverged one returns the value of the last policy it
-- evaluated and a policy that is worth no less, and more unless that value is already optimal.
theorem policyIteration_correct (described : m.Describes P) (stochastic : P.Stochastic)
    (unmerged : P.Unmerged) (nonneg : 0 ≤ γ) (below : γ < 1) (cap : 0 < settings.iterations)
    (ran : (policyIteration m (.infinite (.finite γ)) initial settings sparse).runOn j = (.ok result, j')) :
    ∃ v, result.value = exactVector v ∧ result.policy = .stationary (P.actionArray (P.greedy γ v)) ∧
      (result.converged = true →
        P.bellman γ v = v ∧
        (∀ p : Policy (Extended K), p.validate m none = .ok () → p.isStationary = true → p.SumsToOne →
          ∀ sparse', ∃ u, evaluatePolicy m (.objective (.infinite (.finite γ))) (.policy p) sparse'
            = .ok (exactVector u) ∧ ∀ s, u s ≤ v s) ∧
        (∀ sparse', evaluatePolicy m (.objective (.infinite (.finite γ))) (.policy result.policy) sparse'
          = .ok result.value) ∧
        ∀ initial' settings' sparse' result' k k', 0 < settings'.iterations →
          (policyIteration m (.infinite (.finite γ)) initial' settings' sparse').runOn k
            = (.ok result', k') → result'.converged = true →
          result'.value = result.value ∧ result'.policy = result.policy) ∧
      (result.converged = false →
        (∃ actions before last, initialActions m initial = .ok actions ∧
          rounds (improve m (.infinite (.finite γ)) sparse) settings.iterations actions
            = .ok (before ++ [last]) ∧ last.2 = result.value ∧
          ∀ sparse', evaluatePolicy m (.objective (.infinite (.finite γ)))
            (.policy (.stationary last.1)) sparse' = .ok result.value) ∧
        ∀ sparse', ∃ u, evaluatePolicy m (.objective (.infinite (.finite γ))) (.policy result.policy)
          sparse' = .ok (exactVector u) ∧ (∀ s, v s ≤ u s) ∧ (u = v → P.bellman γ v = v)) := by
  obtain ⟨last, returned⟩ := policyIteration_returned described stochastic unmerged nonneg below cap ran
  refine ⟨P.value γ (P.sure last), returned.value, returned.policy, fun converged => ?_, fun _ => ?_⟩
  · have stable := returned.converged.mp converged
    have optimal := Process.stable_optimal stochastic nonneg below stable
    refine ⟨optimal, fun p valid stationary exact => evaluate_le_optimal described stochastic unmerged
      nonneg below optimal valid stationary exact, fun sparse' => ?_, ?_⟩
    · rw [returned.policy, stable, returned.value]
      exact evaluate_selection described stochastic unmerged nonneg below last sparse'
    · intro initial' settings' sparse' result' k k' cap' ran' converged'
      obtain ⟨last', returned'⟩ :=
        policyIteration_returned described stochastic unmerged nonneg below cap' ran'
      have same : P.value γ (P.sure last') = P.value γ (P.sure last) :=
        Process.optimal_unique stochastic nonneg below
          (Process.stable_optimal stochastic nonneg below (returned'.converged.mp converged')) optimal
      rw [returned'.value, returned.value, returned'.policy, returned.policy, Process.improve,
        Process.improve, same]
      exact ⟨rfl, rfl⟩
  · obtain ⟨actions, before, known, listed⟩ := returned.evaluated
    refine ⟨⟨actions, before, _, known, listed, returned.value.symm, fun sparse' => ?_⟩, fun sparse' => ?_⟩
    · rw [returned.value]
      exact evaluate_selection described stochastic unmerged nonneg below last sparse'
    · rw [returned.policy]
      exact ⟨_, evaluate_selection described stochastic unmerged nonneg below _ sparse',
        Process.improve_value stochastic nonneg below last,
        Process.equal_optimal stochastic nonneg below⟩

theorem policyIteration_correct_leaving : ∃ result j v,
    (policyIteration (.table Process.leaving.table) (.infinite (.finite (1 / 2))) none (.quiet 10 1 0)
      true).runOn Journal.empty = (.ok result, j) ∧ result.converged = true ∧
    result.value = exactVector v ∧ Process.leaving.bellman (1 / 2) v = v ∧
    result.policy = .stationary (Process.leaving.actionArray (Process.leaving.greedy (1 / 2) v)) := by
  have cap : 0 < (Settings.quiet 10 1 0 : Settings (Extended ℚ)).iterations := by decide
  have nonneg : (0 : ℚ) ≤ 1 / 2 := by norm_num
  have below : (1 / 2 : ℚ) < 1 := by norm_num
  have known : initialActions (.table Process.leaving.table) none
      = .ok (Process.leaving.actionArray fun _ => ⟨0, Nat.two_pos⟩) := rfl
  obtain ⟨_, _, result, j, ran, _, _, ends, shows⟩ := policyIteration_exact
    (table_describes Process.leaving) Process.leaving_stochastic Process.leaving_unmerged nonneg below cap
    rfl known true Journal.empty
  have converged : result.converged = true :=
    shows.converged.trans (ends.converges Process.leaving_stochastic nonneg below (by decide))
  obtain ⟨v, value, policy, optimal, _⟩ := policyIteration_correct (table_describes Process.leaving)
    Process.leaving_stochastic Process.leaving_unmerged nonneg below cap ran
  exact ⟨result, j, v, ran, converged, value, (optimal converged).1, policy⟩

-- With every round the value of the policy under evaluation grows or stays, and no policy comes twice.
-- As many rounds as there are policies are enough to converge, and then there is nothing to warn of.
theorem policyIteration_progress (described : m.Describes P) (stochastic : P.Stochastic)
    (unmerged : P.Unmerged) (nonneg : 0 ≤ γ) (below : γ < 1) (cap : 0 < settings.iterations)
    (printable : (settings.verbose && settings.lineLength.isNone) = false) {actions : Array Int}
    (known : initialActions m initial = .ok actions) (sparse : Bool) (j : Journal (Extended K)) :
    ∃ result j', (policyIteration m (.infinite (.finite γ)) initial settings sparse).runOn j
        = (.ok result, j') ∧
      (∃ ds : List P.Selection,
        rounds (improve m (.infinite (.finite γ)) sparse) settings.iterations actions
          = .ok (ds.map fun d => (P.actionArray d, exactVector (P.value γ (P.sure d)))) ∧
        result.iterations = ds.length ∧
        ds.Pairwise (fun d e => ∀ s, P.value γ (P.sure d) s ≤ P.value γ (P.sure e) s) ∧ ds.Nodup) ∧
      (∏ s, P.actionCount s ≤ settings.iterations → result.converged = true ∧
        j'.warnings = j.warnings ∧ result.iterations ≤ ∏ s, P.actionCount s) := by
  obtain ⟨d, rfl⟩ := initialActions_exact described known
  obtain ⟨k, q, result, j', ran, quiet, listed, ends, shows⟩ := policyIteration_exact described
    stochastic unmerged nonneg below cap printable known sparse j
  refine ⟨result, j', ran, ⟨(List.range (k + 1)).map (P.round γ d), ?_, ?_, ?_, ?_⟩, fun enough => ?_⟩
  · rw [listed, List.map_map]
    rfl
  · rw [shows.iterations, ends.iterations, List.length_map, List.length_range]
    omega
  · refine List.pairwise_map.mpr (List.pairwise_lt_range.imp fun before s => ?_)
    exact Process.round_value_le stochastic nonneg below (Nat.le_of_lt before) s
  · refine List.pairwise_map.mpr ((List.pairwise_lt_range (n := k + 1)).imp_of_mem
      fun {i i'} _ member before => ?_)
    exact Process.round_fresh stochastic nonneg below ends.moves before
      (Nat.lt_succ_iff.mp (List.mem_range.mp member))
  · have bound := Process.rounds_le stochastic nonneg below ends.moves
    have finished : q.converged = true := ends.converges stochastic nonneg below (by omega)
    refine ⟨shows.converged.trans finished, quiet finished, ?_⟩
    rw [shows.iterations, ends.iterations]
    omega

theorem policyIteration_progress_leaving : ∃ result j,
    (policyIteration (.table Process.leaving.table) (.infinite (.finite (1 / 2)))
      (some (.policy (.stationary #[0, 1]))) (.quiet 4 1 0) false).runOn Journal.empty
      = (.ok result, j) ∧ result.converged = true ∧ j.warnings = Journal.empty.warnings ∧
    result.iterations ≤ 4 := by
  have cap : 0 < (Settings.quiet 4 1 0 : Settings (Extended ℚ)).iterations := by decide
  have known : initialActions (.table Process.leaving.table) (some (.policy (.stationary #[0, 1])))
      = .ok #[0, 1] := rfl
  obtain ⟨result, j, ran, _, enough⟩ := policyIteration_progress (table_describes Process.leaving)
    Process.leaving_stochastic Process.leaving_unmerged (γ := 1 / 2) (by norm_num) (by norm_num) cap rfl
    known false Journal.empty
  obtain ⟨converged, quiet, bound⟩ := enough (by decide)
  exact ⟨result, j, ran, converged, quiet, bound⟩

end Results

end MarkovDecision
