import MarkovDecision.Proofs.AcceptedNumbers
import MarkovDecision.Proofs.PolicyRounds
import MarkovDecision.Proofs.SparseIteration

namespace MarkovDecision

section Notions

variable {α : Type} [Scalar α] {K : Type} [Field K] [LinearOrder K] [FloorRing K]

def Model.Offers (m : Model α) (s a : Nat) : Prop :=
  s < m.stateCount ∧ ∃ k : Nat, m.actionCount (s : Nat) = .ok (k : Int) ∧ a < k

def Model.Damps (m : Model (Extended K)) (γ : K) (s : Nat) (a : Int) : Prop :=
  ∀ ts, m.transitions s a = .ok ts → γ * (ts.map fun t => t.probability.value.real).sum < 1

end Notions

section Described

variable {n : Nat} {K : Type} [Field K] [LinearOrder K] [FloorRing K] {m : Model (Extended K)} {P : Process n K}
  {γ : K}

theorem Model.Describes.offers (described : m.Describes P) {s a : Nat} :
    m.Offers s a ↔ ∃ (i : Fin n) (b : Fin (P.actionCount i)), (i : Nat) = s ∧ (b : Nat) = a := by
  constructor
  · rintro ⟨inside, k, count, below⟩
    rw [described.states] at inside
    obtain rfl : k = P.actionCount ⟨s, inside⟩ :=
      Int.ofNat.inj (Except.ok.inj (count.symm.trans (described.actions ⟨s, inside⟩)))
    exact ⟨⟨s, inside⟩, ⟨a, below⟩, rfl, rfl⟩
  · rintro ⟨i, b, rfl, rfl⟩
    exact ⟨described.states ▸ i.isLt, _, described.actions i, b.isLt⟩

theorem Model.Describes.damps (described : m.Describes P) (s : Fin n) (a : Fin (P.actionCount s)) :
    m.Damps γ s (a : Nat) ↔ γ * P.mass s a < 1 := by
  obtain ⟨ts, known, reads⟩ := described.outcomes s a
  have same : (ts.map fun t => t.probability.value.real).sum = P.mass s a := by
    have mapped := congrArg (List.map Extended.real) (reads_probabilities reads)
    rw [List.map_map, List.map_map] at mapped
    exact congrArg List.sum mapped
  rw [← same]
  refine ⟨fun damps => damps ts known, fun small us known' => ?_⟩
  obtain rfl := Except.ok.inj (known.symm.trans known')
  exact small

theorem Model.Describes.unmerged (described : m.Describes P) :
    P.Unmerged ↔ ∀ s a : Nat, m.Offers s a → ¬m.Repeats s a := by
  constructor
  · rintro unmerged s a offered ⟨ts, known, twice⟩
    obtain ⟨i, b, rfl, rfl⟩ := described.offers.mp offered
    obtain ⟨us, known', reads⟩ := described.outcomes i b
    obtain rfl := Except.ok.inj (known.symm.trans known')
    exact twice ((reads_nodup reads).mpr (unmerged i b))
  · intro distinct i b
    obtain ⟨ts, known, reads⟩ := described.outcomes i b
    by_contra twice
    exact distinct i b (described.offers.mpr ⟨i, b, rfl, rfl⟩)
      ⟨ts, known, fun once => twice ((reads_nodup reads).mp once)⟩

theorem evaluatePolicy_resolved {given : PolicyData (Extended K)} {p : Policy (Extended K)}
    (accepted : stationaryPolicy m given = .ok p) (goal : Goal (Extended K)) (sparse : Bool) :
    evaluatePolicy m goal given sparse = evaluatePolicy m goal (.policy p) sparse := by
  obtain ⟨_, valid, stationary⟩ := stationaryPolicy_ok.mp accepted
  have again : stationaryPolicy m (.policy p) = .ok p := stationaryPolicy_ok.mpr ⟨rfl, valid, stationary⟩
  simp only [evaluatePolicy, RewardProcess.ofPolicy, SparseRewardProcess.ofPolicy, accepted, again]

variable [IsStrictOrderedRing K]

theorem evaluate_damped (described : m.Describes P) (exact : m.Exact) (unmerged : P.Unmerged) (positive : P.Positive)
    (nonneg : 0 ≤ γ) {given : PolicyData (Extended K)} {d : P.Selection}
    (accepted : stationaryPolicy m given = .ok (.stationary (P.actionArray d)))
    (damped : ∀ s, γ * P.mass s (d s) < 1) :
    ∃ (t : Matrix (Fin n) (Fin n) K) (r v : Fin n → K),
      RewardProcess.ofPolicy m given = .ok (.ofCells t r) ∧ (1 - γ • t).det ≠ 0 ∧
      (∀ u, (1 - γ • t).mulVec u = r ↔ u = v) ∧
      ∀ sparse, evaluatePolicy m (.objective (.infinite (.finite γ))) given sparse = .ok (exactVector v) := by
  have made := ofPolicy_exact described unmerged accepted trivial
  rw [Policy.rule_stationary] at made
  have nonsingular := Process.sure_nonsingular positive nonneg damped
  obtain ⟨v, solves, dense, _⟩ := LinearSystem.solve_agrees (A := valueCoefficients γ (P.transition (P.sure d)))
    (by rwa [valueCoefficients_matrix]) (P.ruleReward (P.sure d))
  rw [valueCoefficients_matrix] at solves
  have evaluated : evaluatePolicy m (.objective (.infinite (.finite γ))) given false = .ok (exactVector v) := by
    rw [evaluatePolicy, if_neg Bool.false_ne_true, made, Outcome.ok_bind, Objective.factor, RewardProcess.value,
      RewardProcess.ofCells_equations, dense]
    simp only [← exactVector_toList, Array.toArray_toList]
  refine ⟨Matrix.of (P.transition (P.sure d)), P.ruleReward (P.sure d), v, made, nonsingular, fun u => ⟨fun same => ?_,
    fun same => same ▸ solves⟩, fun sparse => ?_⟩
  · refine sub_eq_zero.mp (Matrix.eq_zero_of_mulVec_eq_zero nonsingular ?_)
    rw [Matrix.mulVec_sub, same, solves, sub_self]
  · cases sparse with
    | false => exact evaluated
    | true =>
      rw [← evaluated, evaluatePolicy_resolved accepted, evaluatePolicy_resolved accepted]
      refine evaluatePolicy_agrees described.listed exact rfl fun process known => ?_
      obtain ⟨_, valid, stationary⟩ := stationaryPolicy_ok.mp accepted
      rw [ofPolicy_exact described unmerged (stationaryPolicy_ok.mpr ⟨rfl, valid, stationary⟩) trivial,
        Policy.rule_stationary] at known
      cases known
      exact RewardProcess.nonsingular_ofCells nonsingular

end Described

namespace PolicyIteration

section Returns

variable {α : Type} {improve : Array Int → Outcome α (Array α × Array Int)} {Fits : Array Int → Prop}

theorem iterate_returns
    (round : ∀ actions, Fits actions → ∃ value next, improve actions = .ok (value, next) ∧ Fits next) (fuel : Nat) :
    ∀ (done : Nat) (p : Progress α) (j : Journal α), Fits p.actions →
      ∃ q j', (iterate improve fuel done p).runOn j = (.ok q, j') := by
  induction fuel with
  | zero => exact fun _ p j _ => ⟨p, j, rfl⟩
  | succ fuel ih =>
    intro done p j fits
    obtain ⟨value, next, improved, again⟩ := round p.actions fits
    rw [iterate_opened improved]
    split
    · exact ⟨_, _, rfl⟩
    · exact ih _ _ _ again

theorem policyIteration_returns [Scalar α] {m : Model α} {discount : α} {initial : Option (PolicyData α)}
    {settings : Settings α} {sparse : Bool} (printable : (settings.verbose && settings.lineLength.isNone) = false)
    {first : Array Int} (known : initialActions m initial = .ok first) (fits : Fits first)
    (round : ∀ actions, Fits actions →
      ∃ value next, PolicyIteration.improve m (.infinite discount) sparse actions = .ok (value, next) ∧ Fits next)
    (j : Journal α) :
    ∃ result j', (policyIteration m (.infinite discount) initial settings sparse).runOn j = (.ok result, j') := by
  obtain ⟨q, looped, loop⟩ := iterate_returns round settings.iterations 0 ⟨#[], first, 0, false⟩
    (opened m discount sparse j) fits
  rw [policyIteration_loop printable known, loop]
  exact ⟨_, _, rfl⟩

end Returns

section Damped

variable {n : Nat} {K : Type} [Field K] [LinearOrder K] [FloorRing K] [IsStrictOrderedRing K]
  {m : Model (Extended K)} {P : Process n K} {γ : K}

theorem improve_damped (described : m.Describes P) (exact : m.Exact) (unmerged : P.Unmerged) (positive : P.Positive)
    (nonneg : 0 ≤ γ) {d : P.Selection} (damped : ∀ s, γ * P.mass s (d s) < 1) (sparse : Bool) :
    ∃ v, improve m (.infinite (.finite γ)) sparse (P.actionArray d)
      = .ok (exactVector v, P.actionArray (P.greedy γ v)) := by
  have accepted : stationaryPolicy m (.policy (.stationary (P.actionArray d))) = .ok (.stationary (P.actionArray d)) :=
    stationaryPolicy_ok.mpr ⟨rfl, actionArray_valid described d, rfl⟩
  obtain ⟨_, _, v, _, _, _, evaluated⟩ := evaluate_damped described exact unmerged positive nonneg accepted damped
  have swept : m.bellman (.objective (.infinite (.finite γ))) (exactVector v) .serial = _ :=
    bellman_exact described rfl rfl v
  refine ⟨v, ?_⟩
  rw [improve, evaluated sparse, Outcome.ok_bind, swept]
  rfl

theorem policyIteration_damped (described : m.Describes P) (exact : m.Exact) (unmerged : P.Unmerged)
    (positive : P.Positive) (nonneg : 0 ≤ γ) (damped : ∀ s a, γ * P.mass s a < 1)
    (initial : Option (PolicyData (Extended K))) (settings : Settings (Extended K)) :
    Solvable m (.infinite (.finite γ)) γ initial settings ∧
      ((settings.verbose && settings.lineLength.isNone) = false → ∀ first, initialActions m initial = .ok first →
        ∀ j, ∃ result, ∀ sparse,
          ((policyIteration m (.infinite (.finite γ)) initial settings sparse).runOn j).1 = .ok result) := by
  have solvable := solvable_of_nonsingular described unmerged
    (fun d => Process.sure_nonsingular positive nonneg fun s => damped s (d s)) initial settings
  refine ⟨solvable, fun printable first known j => ?_⟩
  have round : ∀ actions, (∃ d, actions = P.actionArray d) →
      ∃ value next, improve m (.infinite (.finite γ)) false actions = .ok (value, next) ∧
        ∃ d, next = P.actionArray d := by
    rintro _ ⟨d, rfl⟩
    obtain ⟨v, improved⟩ := improve_damped described exact unmerged positive nonneg (fun s => damped s (d s)) false
    exact ⟨_, _, improved, _, rfl⟩
  obtain ⟨result, j', ran⟩ :=
    policyIteration_returns printable known (initialActions_exact described known) round j
  refine ⟨result, fun sparse => ?_⟩
  cases sparse with
  | false => rw [ran]
  | true => rw [← (policyIteration_sameRows described.listed exact rfl solvable j j rfl).1, ran]

end Damped

end PolicyIteration

section Looping

variable {K : Type} [Field K]

def Process.looping (p : K) : Process 1 K where
  actionCount _ := 1
  hasAction _ := Nat.one_pos
  branches s _ := [⟨s, p, 0⟩]

def Listing.looping (p : K) : List (List (Listing K)) := [[⟨[.whole 0], [.real p], [.whole 0]⟩]]

theorem looping_unmerged (p : K) : (Process.looping p).Unmerged := fun _ _ => List.nodup_singleton _

variable [LinearOrder K] [FloorRing K] {p γ tolerance : K}

theorem looping_describes (p : K) :
    (Model.flat (FlatModel.laid ((Listing.looping p).map (List.map Listing.columns)))).Describes
      (Process.looping p) where
  states := rfl
  actions := fun
    | 0 => rfl
  outcomes := fun
    | 0, ⟨0, _⟩ => ⟨_, rfl, .cons ⟨rfl, rfl, congrArg Extended.finite Int.cast_zero⟩ .nil⟩
  columnar := FlatModel.layout_covers fun row inRows c inRow => by
    obtain rfl := List.mem_singleton.mp inRows
    obtain rfl := List.mem_singleton.mp inRow
    exact ⟨rfl, rfl⟩

theorem unsolvable (r : K) : LinearSystem.solve [(⟨[.finite 0], .finite r⟩ : Equation (Extended K))] = none := by
  simp [LinearSystem.solve, LinearSystem.triangular, LinearSystem.choosePivot, Equation.lead]

-- A discount that makes up for the excess leaves an equation 0 v = r, which has no pivot.
theorem looping_singular {m : Model (Extended K)} (described : m.Describes (Process.looping p)) (balance : γ * p = 1) :
    evaluatePolicy m (.objective (.infinite (.finite γ))) (.policy (.stationary #[0])) false = .error .singular := by
  let d : (Process.looping p).Selection := fun _ => ⟨0, Nat.one_pos⟩
  have accepted : stationaryPolicy m (.policy (.stationary #[0]))
      = .ok (.stationary ((Process.looping p).actionArray d)) :=
    stationaryPolicy_ok.mpr ⟨rfl, actionArray_valid described d, rfl⟩
  have made := ofPolicy_exact described (looping_unmerged p) accepted trivial
  rw [Policy.rule_stationary] at made
  have stays : (Process.looping p).transition ((Process.looping p).sure d) 0 0 = p := by
    rw [Process.transition, Process.drift_sure]
    simp [Process.mean, Process.looping]
  have coefficient : valueCoefficients γ ((Process.looping p).transition ((Process.looping p).sure d)) 0 0 = 0 := by
    rw [valueCoefficients, stays, balance, if_pos rfl, sub_self]
  rw [evaluatePolicy, if_neg Bool.false_ne_true, made, Outcome.ok_bind, Objective.factor, RewardProcess.value,
    RewardProcess.ofCells_equations, LinearSystem.equationsOf, List.ofFn_succ, List.ofFn_zero, List.map_singleton,
    Equation.exact, List.ofFn_succ, List.ofFn_zero, List.map_singleton, coefficient, unsolvable]

theorem looping_stuck {m : Model (Extended K)} (described : m.Describes (Process.looping p)) (balance : γ * p = 1)
    {settings : Settings (Extended K)} (printable : (settings.verbose && settings.lineLength.isNone) = false)
    (cap : 0 < settings.iterations) (j : Journal (Extended K)) :
    ((policyIteration m (.infinite (.finite γ)) none settings false).runOn j).1 = .error .singular := by
  obtain ⟨fuel, same⟩ : ∃ fuel, settings.iterations = fuel + 1 := ⟨settings.iterations - 1, by omega⟩
  obtain ⟨opened, opening⟩ := Journaled.begin_yields printable (PolicyIteration.algorithm false)
    PolicyIteration.valueName (.infinite (.finite γ)) m.stateCount j
  have first : PolicyIteration.initialActions m none = .ok #[0] := by
    rw [PolicyIteration.initialActions, described.states]
    rfl
  unfold policyIteration
  dsimp only
  rw [InPlace.runOn_bind_ok opening, first, InPlace.runOn_bind_ok (InPlace.runOn_lift _ _), InPlace.runOn_bind, same,
    PolicyIteration.iterate, InPlace.runOn_bind, InPlace.runOn_lift, PolicyIteration.improve,
    looping_singular described balance]
  rfl

variable [IsStrictOrderedRing K]

theorem looping_accepted (positive : 0 < p) (near : |p - 1| ≤ tolerance) :
    FlatModel.ofListings (.finite tolerance) ((Listing.looping p).map (List.map Listing.exact))
      = .ok (FlatModel.laid ((Listing.looping p).map (List.map Listing.columns))) := by
  refine FlatModel.ofListings_exact.mpr ⟨⟨by simp [Listing.looping], ?_⟩, rfl⟩
  have least := (abs_le.mp near).2
  simp only [Listing.looping, List.forall_mem_singleton, ne_eq, reduceCtorEq, not_false_eq_true, true_and]
  refine ⟨⟨rfl, rfl⟩, ?_, ?_, ?_, ?_⟩
  · simp
  · simp [Quantity.number]
  · simpa [Quantity.number, positive] using by linarith
  · simpa [Quantity.number] using near

end Looping

section Results

variable {K : Type} [Field K] [LinearOrder K] [FloorRing K] {γ tolerance : K}

theorem Objective.makeInfinite_exact {discount : Quantity (Extended K)} :
    makeInfinite discount = .ok (.infinite (.finite γ)) ↔ discount.value = .finite γ ∧ 0 ≤ γ ∧ γ < 1 := by
  rw [makeInfinite_ok, infinite.injEq]
  constructor
  · rintro ⟨passes, value⟩
    rw [← value] at passes
    cases passes with
    | finite inside => exact ⟨value.symm, inside⟩
  · rintro ⟨value, inside⟩
    rw [value]
    exact ⟨.finite inside, rfl⟩

variable [IsStrictOrderedRing K]

-- A policy whose discounted probabilities add up to less than one in every state has a system with one solution,
-- which dense and sparse evaluation return. If no action exceeds that, policy iteration solves no other systems, and
-- either form of it returns the same. Below 1 / (1 + tolerance) no action of an accepted model does. From that
-- discount on some accepted model has a policy whose system is singular, and policy iteration fails on it.
theorem tolerated_evaluation {discount : Quantity (Extended K)}
    (admitted : Objective.makeInfinite discount = .ok (.infinite (.finite γ))) :
    (∀ given f, (∀ row, .ok row ∈ given → ∀ c, .ok c ∈ row → c.WellShaped) →
      FlatModel.build (.finite tolerance) given = .ok f → (Model.flat f).Exact →
      (∀ s a, (Model.flat f).Offers s a → ¬(Model.flat f).Repeats s a) →
      (∀ chosen actions, chosen.validate (.flat f) none = .ok (.stationary actions) →
        (∀ (s : Nat) a, actions[s]? = some a → (Model.flat f).Damps γ s a) →
        ∃ (t : Matrix (Fin f.stateCount) (Fin f.stateCount) K) (r v : Fin f.stateCount → K),
          RewardProcess.ofPolicy (.flat f) chosen = .ok (.ofCells t r) ∧ (1 - γ • t).det ≠ 0 ∧
          (∀ u, (1 - γ • t).mulVec u = r ↔ u = v) ∧
          ∀ sparse, evaluatePolicy (.flat f) (.objective (.infinite (.finite γ))) chosen sparse
            = .ok (exactVector v)) ∧
      ((∀ s a : Nat, (Model.flat f).Offers s a → (Model.flat f).Damps γ s a) → ∀ initial settings,
        PolicyIteration.Solvable (.flat f) (.infinite (.finite γ)) γ initial settings ∧
        ((settings.verbose && settings.lineLength.isNone) = false →
          ∀ first, PolicyIteration.initialActions (.flat f) initial = .ok first → ∀ j, ∃ result, ∀ sparse,
            ((policyIteration (.flat f) (.infinite (.finite γ)) initial settings sparse).runOn j).1 = .ok result)) ∧
      (γ * (1 + tolerance) < 1 → ∀ s a : Nat, (Model.flat f).Offers s a → (Model.flat f).Damps γ s a)) ∧
    (1 ≤ γ * (1 + tolerance) → ∃ table f, FlatModel.ofListings (.finite tolerance) table = .ok f ∧
      (Model.flat f).Exact ∧ (∀ s a, (Model.flat f).Offers s a → ¬(Model.flat f).Repeats s a) ∧
      (PolicyData.policy (.stationary #[0])).validate (.flat f) none = .ok (.stationary #[0]) ∧
      evaluatePolicy (.flat f) (.objective (.infinite (.finite γ))) (.policy (.stationary #[0])) false
        = .error .singular ∧
      ∀ settings, (settings.verbose && settings.lineLength.isNone) = false → 0 < settings.iterations → ∀ j,
        ((policyIteration (.flat f) (.infinite (.finite γ)) none settings false).runOn j).1 = .error .singular) := by
  obtain ⟨_, nonneg, below⟩ := Objective.makeInfinite_exact.mp admitted
  constructor
  · intro given f shaped built exact distinct
    have checked := FlatModel.build_checked shaped built
    obtain ⟨P, described⟩ := checked.describes exact
    have nearly := checked.nearlyStochastic described
    have unmerged := described.unmerged.mpr distinct
    refine ⟨fun chosen actions validated light => ?_, fun light initial settings => ?_, fun small s a offered => ?_⟩
    · obtain ⟨resolved, valid⟩ := PolicyData.validate_ok.mp validated
      have accepted := stationaryPolicy_ok.mpr ⟨resolved, valid, rfl⟩
      obtain ⟨d, rfl⟩ := valid_stationary described valid
      refine evaluate_damped described exact unmerged nearly.positive nonneg accepted fun s => ?_
      exact (described.damps s (d s)).mp (light s _ (by simp [Process.actionArray]))
    · refine PolicyIteration.policyIteration_damped described exact unmerged nearly.positive nonneg (fun s a => ?_)
        initial settings
      exact (described.damps s a).mp (light s a (described.offers.mpr ⟨s, a, rfl, rfl⟩))
    · obtain ⟨i, b, rfl, rfl⟩ := described.offers.mp offered
      exact (described.damps i b).mpr (nearly.damped nonneg small i b)
  · intro large
    have positive : 0 < γ := nonneg.lt_of_ne fun zero => by
      rw [← zero, zero_mul] at large
      exact absurd large (not_le.mpr one_pos)
    have near : |γ⁻¹ - 1| ≤ tolerance := by
      have least : 1 ≤ γ⁻¹ := (one_le_inv₀ positive).mpr below.le
      have most : γ⁻¹ ≤ 1 + tolerance := (inv_le_iff_one_le_mul₀' positive).mpr large
      rw [abs_of_nonneg (sub_nonneg.mpr least)]
      linarith
    have made := looping_accepted (inv_pos.mpr positive) near
    have described := looping_describes γ⁻¹
    have balance := mul_inv_cancel₀ positive.ne'
    exact ⟨_, _, made, FlatModel.listings_numbers made, described.unmerged.mp (looping_unmerged _),
      PolicyData.validate_ok.mpr ⟨rfl, actionArray_valid described fun _ => ⟨0, Nat.one_pos⟩⟩,
      looping_singular described balance, fun _ printable cap j => looping_stuck described balance printable cap j⟩

def Listing.excessive : List (List (Listing ℚ)) := looping (1000001 / 1000000)

theorem excessive_accepted :
    FlatModel.ofListings (.finite (1 / 10 ^ 6)) (Listing.excessive.map (List.map Listing.exact))
      = .ok (FlatModel.laid (Listing.excessive.map (List.map Listing.columns))) :=
  looping_accepted (by norm_num) (by norm_num [abs_le])

theorem tolerated_evaluation_excessive :
    ∃ f, FlatModel.ofListings FlatModel.defaultTolerance (Listing.excessive.map (List.map Listing.exact)) = .ok f ∧
      ∃ (v : Fin 1 → ℚ) (result : PolicyIterationResult (Extended ℚ)),
        (∀ sparse, evaluatePolicy (.flat f) (.objective (.infinite (.finite (1 / 2)))) (.policy (.stationary #[0]))
          sparse = .ok (exactVector v)) ∧
        ∀ sparse, ((policyIteration (.flat f) (.infinite (.finite (1 / 2))) none (.quiet 10 1 0) sparse).runOn
          Journal.empty).1 = .ok result := by
  have described := looping_describes (1000001 / 1000000 : ℚ)
  have admitted : Objective.makeInfinite (.real (.finite (1 / 2)) : Quantity (Extended ℚ))
      = .ok (.infinite (.finite (1 / 2))) := Objective.makeInfinite_exact.mpr ⟨rfl, by norm_num, by norm_num⟩
  obtain ⟨values, runs, small⟩ := (tolerated_evaluation admitted).1 _ _ FlatModel.listings_shaped excessive_accepted
    (FlatModel.listings_numbers excessive_accepted) (described.unmerged.mp (looping_unmerged _))
  have damps := small (by norm_num)
  have valid : (PolicyData.policy (.stationary #[0])).validate (.flat (FlatModel.laid (Listing.excessive.map
      (List.map Listing.columns)))) none = .ok (.stationary #[0]) :=
    PolicyData.validate_ok.mpr ⟨rfl, actionArray_valid described fun _ => ⟨0, Nat.one_pos⟩⟩
  obtain ⟨_, _, v, _, _, _, evaluated⟩ := values _ _ valid fun s a chosen => by
    obtain ⟨inside, rfl⟩ := Array.getElem?_eq_some_iff.mp chosen
    obtain rfl : s = 0 := Nat.lt_one_iff.mp inside
    exact damps 0 0 (described.offers.mpr ⟨0, ⟨0, Nat.one_pos⟩, rfl, rfl⟩)
  obtain ⟨result, ran⟩ := (runs damps none (.quiet 10 1 0)).2 rfl #[0] rfl Journal.empty
  exact ⟨_, defaultTolerance_exact (K := ℚ) ▸ excessive_accepted, v, result, evaluated, ran⟩

-- The only action leads on a little too often. With a discount that makes up for it no policy has a
-- value.
theorem excessive_singular :
    ∃ f, FlatModel.ofListings FlatModel.defaultTolerance (Listing.excessive.map (List.map Listing.exact)) = .ok f ∧
      (Model.flat f).Exact ∧ (∀ s a, (Model.flat f).Offers s a → ¬(Model.flat f).Repeats s a) ∧
      Objective.makeInfinite (.real (.finite (1000000 / 1000001)) : Quantity (Extended ℚ))
        = .ok (.infinite (.finite (1000000 / 1000001))) ∧
      (PolicyData.policy (.stationary #[0])).validate (.flat f) none = .ok (.stationary #[0]) ∧
      evaluatePolicy (.flat f) (.objective (.infinite (.finite (1000000 / 1000001)))) (.policy (.stationary #[0])) false
        = .error .singular ∧
      ((policyIteration (.flat f) (.infinite (.finite (1000000 / 1000001))) none (.quiet 10 1 0) false).runOn
        Journal.empty).1 = .error .singular := by
  have described := looping_describes (1000001 / 1000000 : ℚ)
  have balance : (1000000 / 1000001 : ℚ) * (1000001 / 1000000) = 1 := by norm_num
  exact ⟨_, defaultTolerance_exact (K := ℚ) ▸ excessive_accepted, FlatModel.listings_numbers excessive_accepted,
    described.unmerged.mp (looping_unmerged _), Objective.makeInfinite_exact.mpr ⟨rfl, by norm_num, by norm_num⟩,
    PolicyData.validate_ok.mpr ⟨rfl, actionArray_valid described fun _ => ⟨0, Nat.one_pos⟩⟩,
    looping_singular described balance, looping_stuck described balance rfl (by decide) Journal.empty⟩

end Results

end MarkovDecision
