import MarkovDecision.PolicyEvaluation
import MarkovDecision.Proofs.Elimination
import MarkovDecision.Proofs.PolicyRule
import MarkovDecision.Proofs.Process.Transition
import MarkovDecision.Proofs.SparseRows

namespace MarkovDecision

variable {n : Nat} {K : Type} [Field K]

def Process.spread (P : Process n K) (s : Fin n) (choices : List (Fin (P.actionCount s) × K)) :
    List (Branch n K) :=
  choices.flatMap fun c => (P.branches s c.1).map fun b => { b with probability := c.2 * b.probability }

theorem spread_sum {P : Process n K} {s : Fin n} (g : Branch n K → K)
    (homogeneous : ∀ (b : Branch n K) (c : K), g { b with probability := c * b.probability } = c * g b)
    (choices : List (Fin (P.actionCount s) × K)) :
    ((P.spread s choices).map g).sum
      = (choices.map fun c => c.2 * ((P.branches s c.1).map g).sum).sum := by
  induction choices with
  | nil => rfl
  | cons c choices ih =>
    rw [Process.spread, List.flatMap_cons, List.map_append, List.sum_append, List.map_cons,
      List.sum_cons, List.map_map, ← List.sum_map_mul_left]
    exact congrArg₂ (· + ·) (congrArg List.sum (List.map_congr_left fun b _ => homogeneous b c.2)) ih

section Rows

variable {P : Process n K} {w : P.Rule} {s : Fin n}
  {choices : List (Fin (P.actionCount s) × K)}

theorem spread_drift (total : ∀ f : Fin (P.actionCount s) → K,
      (choices.map fun c => c.2 * f c.1).sum = ∑ a, w s a * f a) (v : Fin n → K) :
    ((P.spread s choices).map fun b => b.probability * v b.next).sum = P.drift w v s := by
  rw [spread_sum (fun b => b.probability * v b.next) (fun b c => mul_assoc _ _ _)]
  exact total (P.mean v s)

theorem spread_reward (total : ∀ f : Fin (P.actionCount s) → K,
      (choices.map fun c => c.2 * f c.1).sum = ∑ a, w s a * f a) :
    ((P.spread s choices).map fun b => b.probability * b.reward).sum = P.ruleReward w s := by
  rw [spread_sum (fun b => b.probability * b.reward) (fun b c => mul_assoc _ _ _)]
  exact total (P.reward s)

theorem foldl_reward (bs : List (Branch n K)) (start : K) :
    bs.foldl (fun r b => r + b.probability * b.reward) start
      = start + (bs.map fun b => b.probability * b.reward).sum := by
  induction bs generalizing start with
  | nil => rw [List.map_nil, List.sum_nil, add_zero]; rfl
  | cons b bs ih => rw [List.foldl_cons, ih, List.map_cons, List.sum_cons, add_assoc]

def fill (t : Fin n → K) (j : Fin n) (p : K) : Fin n → K := Function.update t j (t j + p)

theorem foldl_fill_cell (bs : List (Branch n K)) (j : Fin n) :
    bs.foldl (fun t b => fill t b.next b.probability) 0 j
      = (bs.map fun b => b.probability * (Pi.single j 1 : Fin n → K) b.next).sum := by
  have general : ∀ t : Fin n → K, bs.foldl (fun t b => fill t b.next b.probability) t j
      = t j + (bs.map fun b => b.probability * (Pi.single j 1 : Fin n → K) b.next).sum := by
    induction bs with
    | nil => intro t; simp
    | cons b bs ih =>
      intro t
      have one : fill t b.next b.probability j = t j + b.probability * (Pi.single j 1 : Fin n → K) b.next := by
        by_cases here : b.next = j
        · rw [here, fill, Function.update_self, Pi.single_eq_same, mul_one]
        · rw [fill, Function.update_of_ne (Ne.symm here), Pi.single_eq_of_ne here, mul_zero, add_zero]
      rw [List.foldl_cons, ih, one, List.map_cons, List.sum_cons, add_assoc]
  rw [general, Pi.zero_apply, zero_add]

end Rows

def valueCoefficients (γ : K) (t : Fin n → Fin n → K) (i j : Fin n) : K :=
  (if i = j then 1 else 0) - γ * t i j

theorem valueCoefficients_sum {P : Process n K} {γ : K} {w : P.Rule} (x : Fin n → K) (i : Fin n) :
    ∑ j, valueCoefficients γ (P.transition w) i j * x j = x i - γ * P.drift w x i := by
  rw [← Process.transition_sum, Finset.mul_sum]
  simp only [valueCoefficients, sub_mul, Finset.sum_sub_distrib, ite_mul, one_mul, zero_mul,
    Finset.sum_ite_eq, Finset.mem_univ, if_true, mul_assoc]

section Outcomes

variable [LinearOrder K] [FloorRing K] {m : Model (Extended K)} {P : Process n K} {σ β : Type}
  {step : β → StateLabel → Extended K → Extended K → Outcome (Extended K) β} (shape : σ → β)
  (next : σ → Fin n → K → K → σ)

theorem foldAction_exact
    (steps : ∀ x (j : Fin n) (p r : K), step (shape x) (.index (j : Nat)) (.finite p) (.finite r)
      = .ok (shape (next x j p r)))
    (s a : Int) (weight : K) {ts : List (Transition (Extended K))} {bs : List (Branch n K)}
    (reads : List.Forall₂ Transition.Reads ts bs) : ∀ (x : σ) (seen : List (Fin n)),
    (bs.map Branch.next).Nodup → (∀ b ∈ bs, b.next ∉ seen) →
    Model.foldAction s a (.finite weight) step (shape x)
        (seen.map fun j : Fin n => StateLabel.index ((j : Nat) : Int)) ts
      = .ok (shape (bs.foldl (fun x b => next x b.next (weight * b.probability) b.reward) x)) := by
  induction reads with
  | nil => intro x seen _ _; rfl
  | @cons t b ts bs first _ ih =>
    intro x seen distinct fresh
    obtain ⟨new, later⟩ := List.nodup_cons.mp distinct
    have unseen : (seen.map fun j : Fin n => StateLabel.index ((j : Nat) : Int)).any t.next.same = false := by
      rw [List.any_map, List.any_eq_false]
      intro j member
      have other : b.next ≠ j := fun same => fresh b List.mem_cons_self (same ▸ member)
      rw [first.next, Function.comp_apply]
      simpa [StateLabel.same, StateLabel.literal, Literal.sameLabel, Literal.equalsInt] using
        fun same => other (Fin.ext same)
    have comparable : t.next.comparable = true := by
      rw [first.next]
      rfl
    rw [Model.foldAction, comparable, unseen]
    simp only [Bool.not_true, Bool.false_eq_true, if_false, first.next, first.probability, first.reward,
      Extended.finite_mul]
    rw [steps, Outcome.ok_bind, List.foldl_cons]
    refine ih _ (b.next :: seen) later fun c member => ?_
    rw [List.mem_cons, not_or]
    refine ⟨fun same => new (same ▸ List.mem_map_of_mem member), fresh c (List.mem_cons_of_mem b member)⟩

theorem foldOutcomes_exact (described : m.Describes P) (unmerged : P.Unmerged) {p : Policy (Extended K)}
    {s : Fin n} {choices : List (Fin (P.actionCount s) × K)}
    (listed : p.distribution (s : Nat) 0 = .ok (choices.map fun c => (((c.1 : Nat) : Int), .finite c.2)))
    (steps : ∀ x (j : Fin n) (p r : K), step (shape x) (.index (j : Nat)) (.finite p) (.finite r)
      = .ok (shape (next x j p r))) (x : σ) :
    m.foldOutcomes p (s : Nat) step (shape x)
      = .ok (shape ((P.spread s choices).foldl (fun x b => next x b.next b.probability b.reward) x)) := by
  rw [Model.foldOutcomes, listed, Outcome.ok_bind]
  clear listed
  induction choices generalizing x with
  | nil => rfl
  | cons c choices ih =>
    obtain ⟨ts, known, reads⟩ := described.outcomes s c.1
    rw [List.map_cons, List.foldlM_cons]
    dsimp only
    have whole := foldAction_exact shape next steps (s : Nat) (c.1 : Nat) c.2 reads x [] (unmerged s c.1) (by simp)
    rw [List.map_nil] at whole
    rw [known, Outcome.ok_bind, whole, Outcome.ok_bind, ih, Process.spread, Process.spread,
      List.flatMap_cons, List.foldl_append, List.foldl_map]

end Outcomes

section Systems

variable [LinearOrder K] [FloorRing K] [IsStrictOrderedRing K] {P : Process n K} {γ : K} {w : P.Rule}
  {reduce : Equation (Extended K) → Equation (Extended K) → Equation (Extended K)}
  {leadValue : Equation (Extended K) → List (Extended K) → Extended K}

theorem system_solves (faithful : LinearSystem.Faithful reduce leadValue) (stochastic : P.Stochastic)
    (distribution : P.IsDistribution w) (nonneg : 0 ≤ γ) (below : γ < 1) :
    (LinearSystem.triangular reduce n
      ((LinearSystem.equationsOf (valueCoefficients γ (P.transition w)) (P.ruleReward w)).map Equation.exact)).map
        (LinearSystem.backSubstitute leadValue) = some ((List.ofFn (P.value γ w)).map .finite) := by
  obtain ⟨x, found, solves⟩ := LinearSystem.indexed_solves (valueCoefficients γ (P.transition w)) (P.ruleReward w)
    faithful fun x zero => Process.drift_kernel stochastic distribution nonneg below fun s => by
      have balance := zero s
      rw [valueCoefficients_sum] at balance
      exact sub_eq_zero.mp balance
  have fixed : P.follow γ w x = x := by
    funext s
    have balance := solves s
    rw [valueCoefficients_sum] at balance
    rw [Process.follow_eq]
    exact (sub_eq_iff_eq_add.mp balance).symm
  rw [found, Process.value_unique stochastic distribution nonneg below fixed
    (Process.value_follow stochastic distribution nonneg below)]

end Systems

section Evaluation

variable [LinearOrder K] [FloorRing K] {m : Model (Extended K)} {P : Process n K}
  {given : PolicyData (Extended K)} {p : Policy (Extended K)}

theorem addOutcome_dense (x : (Fin n → K) × K) (j : Fin n) (p r : K) :
    RewardProcess.addOutcome (exactVector x.1, .finite x.2) (.index (j : Nat)) (.finite p) (.finite r)
      = .ok (exactVector (fill x.1 j p), .finite (x.2 + p * r)) := by
  have place : indexFrom (exactVector x.1).size ((j : Nat) : Int) = some (j : Nat) := by
    rw [exactVector_size, indexFrom, if_pos (Int.natCast_nonneg _), if_pos (by omega)]
    rfl
  rw [RewardProcess.addOutcome]
  simp only [StateLabel.position, Outcome.ok_bind, place, exactVector_getD, Extended.finite_add,
    exactVector_setIfInBounds, Extended.finite_mul, Outcome.pure_eq]
  rfl

theorem row_dense (described : m.Describes P) (unmerged : P.Unmerged)
    (valid : p.validate m none = .ok ()) (stationary : p.isStationary = true) (weighted : p.ExactWeights)
    (s : Fin n) : RewardProcess.row m p (s : Nat)
      = .ok (exactVector (P.transition (p.rule P) s), .finite (P.ruleReward (p.rule P) s)) := by
  obtain ⟨choices, listed, total⟩ := distribution_exact described valid stationary weighted s 0
  have folded := foldOutcomes_exact
    (fun x : (Fin n → K) × K => (exactVector x.1, Extended.finite x.2))
    (fun x j p r => (fill x.1 j p, x.2 + p * r)) described unmerged listed addOutcome_dense (0, 0)
  have apart : ∀ (bs : List (Branch n K)) (x : (Fin n → K) × K),
      bs.foldl (fun x b => (fill x.1 b.next b.probability, x.2 + b.probability * b.reward)) x
        = (bs.foldl (fun t b => fill t b.next b.probability) x.1,
          bs.foldl (fun r b => r + b.probability * b.reward) x.2) := by
    intro bs
    induction bs with
    | nil => intro x; rfl
    | cons b bs ih => intro x; exact ih _
  have filled : (P.spread s choices).foldl (fun t b => fill t b.next b.probability) 0
      = P.transition (p.rule P) s := by
    funext j
    rw [foldl_fill_cell, spread_drift total]
    rfl
  have opening : RewardProcess.row m p (s : Nat) = m.foldOutcomes p (s : Nat) RewardProcess.addOutcome
      (exactVector (0 : Fin n → K), .finite 0) := by
    rw [RewardProcess.row, described.states, exactVector_zero, Extended.zero_eq]
  rw [opening, folded, apart, filled, foldl_reward, spread_reward total, zero_add]

theorem addOutcome_sparse (x : List (Nat × K) × K) (j : Fin n) (p r : K) :
    SparseRewardProcess.addOutcome
        (x.1.map fun e => (some (e.1 : Int), Extended.finite e.2), Extended.finite x.2)
        (.index (j : Nat)) (.finite p) (.finite r)
      = .ok ((x.1 ++ [((j : Nat), p)]).map fun e => (some (e.1 : Int), Extended.finite e.2),
        .finite (x.2 + p * r)) := by
  rw [SparseRewardProcess.addOutcome, List.map_append, Extended.finite_mul, Extended.finite_add]
  rfl

theorem row_sparse (described : m.Describes P) (unmerged : P.Unmerged)
    (valid : p.validate m none = .ok ()) (stationary : p.isStationary = true) (weighted : p.ExactWeights)
    (s : Fin n) : ∃ entries : List (Nat × K), SparseRewardProcess.row m p (s : Nat)
        = .ok (entries.map fun e => (some (e.1 : Int), .finite e.2), .finite (P.ruleReward (p.rule P) s)) ∧
      (∀ e ∈ entries, e.1 < n) ∧
      ∀ v : Fin n → K, SparseRow.weigh entries (padded v) = P.drift (p.rule P) v s := by
  obtain ⟨choices, listed, total⟩ := distribution_exact described valid stationary weighted s 0
  have folded := foldOutcomes_exact
    (fun x : List (Nat × K) × K =>
      (x.1.map fun e => (some (e.1 : Int), Extended.finite e.2), Extended.finite x.2))
    (fun x j p r => (x.1 ++ [((j : Nat), p)], x.2 + p * r)) described unmerged listed
    addOutcome_sparse ([], 0)
  have apart : ∀ (bs : List (Branch n K)) (x : List (Nat × K) × K),
      bs.foldl (fun x b => (x.1 ++ [((b.next : Nat), b.probability)], x.2 + b.probability * b.reward)) x
        = (x.1 ++ bs.map fun b => ((b.next : Nat), b.probability),
          bs.foldl (fun r b => r + b.probability * b.reward) x.2) := by
    intro bs
    induction bs with
    | nil => intro x; rw [List.map_nil, List.append_nil]; rfl
    | cons b bs ih =>
      intro x
      rw [List.foldl_cons, ih, List.append_assoc]
      rfl
  rw [apart, foldl_reward, spread_reward total, zero_add] at folded
  have opening : SparseRewardProcess.row m p (s : Nat)
      = m.foldOutcomes p (s : Nat) SparseRewardProcess.addOutcome ([], .finite 0) := by
    rw [SparseRewardProcess.row, Extended.zero_eq]
  refine ⟨_, opening.trans folded, fun e member => ?_, fun v => ?_⟩
  · obtain ⟨b, _, rfl⟩ := List.mem_map.mp member
    exact b.next.isLt
  · rw [← spread_drift total, SparseRow.weigh, List.nil_append, List.map_map]
    exact congrArg List.sum (List.map_congr_left fun b _ => congrArg (b.probability * ·) (padded_fin v _))

theorem identityEntry_exact (i j : Fin n) :
    identityEntry (i : Nat) (j : Nat) = Extended.finite (if i = j then (1 : K) else 0) := by
  unfold identityEntry
  by_cases same : i = j
  · rw [if_pos same, same, if_pos (by simp), Extended.one_eq]
  · rw [if_neg same, if_neg (by simpa using fun equal => same (Fin.ext equal)), Extended.zero_eq]

def RewardProcess.ofCells (t : Fin n → Fin n → K) (r : Fin n → K) : RewardProcess (Extended K) :=
  ⟨Array.ofFn fun s => exactVector (t s), exactVector r⟩

theorem RewardProcess.ofCells_equations (t : Fin n → Fin n → K) (r : Fin n → K) (γ : K) :
    (ofCells t r).equations (.finite γ) = (LinearSystem.equationsOf (valueCoefficients γ t) r).map Equation.exact := by
  rw [equations, LinearSystem.equationsOf, ofCells]
  dsimp only
  rw [exactVector_size, range_map, List.map_ofFn]
  refine congrArg List.ofFn (funext fun i => ?_)
  rw [exactVector_getD, range_map]
  refine Equation.exact_ofFn (fun j => ?_) (r i)
  rw [ofFn_cell, exactVector_getD, identityEntry_exact, Extended.finite_mul, Extended.finite_sub]
  rfl

theorem ofPolicy_exact (described : m.Describes P) (unmerged : P.Unmerged)
    (accepted : stationaryPolicy m given = .ok p) (weighted : p.ExactWeights) :
    RewardProcess.ofPolicy m given = .ok (.ofCells (P.transition (p.rule P)) (P.ruleReward (p.rule P))) := by
  obtain ⟨_, valid, stationary⟩ := stationaryPolicy_ok.mp accepted
  have rows := row_dense described unmerged valid stationary weighted
  rw [RewardProcess.ofPolicy, accepted, Outcome.ok_bind, described.states, Outcome.mapM_range rows,
    Outcome.ok_bind, Outcome.pure_eq, RewardProcess.ofCells, exactVector]
  simp [Function.comp_def]

variable [IsStrictOrderedRing K] {γ : K}

theorem value_dense (described : m.Describes P) (stochastic : P.Stochastic) (unmerged : P.Unmerged)
    (nonneg : 0 ≤ γ) (below : γ < 1) (accepted : stationaryPolicy m given = .ok p) (exact : p.SumsToOne) :
    (do (← RewardProcess.ofPolicy m given).value (.finite γ) : Outcome (Extended K) _)
      = .ok (exactVector (P.value γ (p.rule P))) := by
  obtain ⟨_, valid, stationary⟩ := stationaryPolicy_ok.mp accepted
  have solved := system_solves (LinearSystem.faithful_dense (K := K)) stochastic
    (rule_distribution described valid stationary exact) nonneg below
  have length : (LinearSystem.equationsOf (valueCoefficients γ (P.transition (p.rule P)))
      (P.ruleReward (p.rule P))).length = n := List.length_ofFn
  rw [ofPolicy_exact described unmerged accepted exact.weights, Outcome.ok_bind, RewardProcess.value,
    RewardProcess.ofCells_equations, LinearSystem.solve, List.length_map, length, solved]
  simp only [← exactVector_toList, Array.toArray_toList]

theorem value_sparse (described : m.Describes P) (stochastic : P.Stochastic) (unmerged : P.Unmerged)
    (nonneg : 0 ≤ γ) (below : γ < 1) (accepted : stationaryPolicy m given = .ok p) (exact : p.SumsToOne) :
    (do return (← SparseRewardProcess.ofPolicy m given).value (.finite γ) : Outcome (Extended K) _)
      = .ok (exactVector (P.value γ (p.rule P))) := by
  obtain ⟨_, valid, stationary⟩ := stationaryPolicy_ok.mp accepted
  choose entries rows inside drift using row_sparse described unmerged valid stationary exact.weights
  choose es holds using fun s => SparseRow.ofEntries_holds (entries s)
  let r := P.ruleReward (p.rule P)
  have solved := system_solves (LinearSystem.faithful_sparse (K := K)) stochastic
    (rule_distribution described valid stationary exact) nonneg below
  have matrix : SparseMatrix.ofEntries? n
      ((List.ofFn fun s => ((entries s).map fun e => (some (e.1 : Int), Extended.finite e.2),
        Extended.finite (r s))).map (·.1))
      = some ⟨n, List.ofFn fun s => SparseRow.ofEntries (SparseRow.exactEntries (entries s))⟩ := by
    have stored := Outcome.mapM_some_ofFn fun s => SparseMatrix.rowOf?_exact (inside s)
    rw [SparseMatrix.ofEntries?, List.map_ofFn]
    exact congrArg (Option.map _) stored
  rw [SparseRewardProcess.ofPolicy, accepted, Outcome.ok_bind,
    described.states, Outcome.mapM_range rows, Outcome.ok_bind, matrix, Outcome.ofOption_some,
    Outcome.ok_bind, Outcome.pure_eq, Outcome.ok_bind, Outcome.pure_eq, SparseRewardProcess.value]
  have equations : SparseRewardProcess.equations
      ⟨⟨n, List.ofFn fun s => SparseRow.ofEntries (SparseRow.exactEntries (entries s))⟩,
        ((List.ofFn fun s => ((entries s).map fun e => (some (e.1 : Int), Extended.finite e.2),
          Extended.finite (r s))).map (·.2)).toArray⟩ (.finite γ)
      = (LinearSystem.equationsOf (valueCoefficients γ (P.transition (p.rule P))) r).map Equation.exact := by
    have size : ((List.ofFn fun s => ((entries s).map fun e => (some (e.1 : Int), Extended.finite e.2),
        Extended.finite (r s))).map (·.2)).toArray.size = n := by simp
    rw [SparseRewardProcess.equations, LinearSystem.equationsOf]
    dsimp only
    rw [size, List.map_ofFn, zipIdx_ofFn, List.map_ofFn, List.map_ofFn]
    refine congrArg List.ofFn (funext fun i => ?_)
    rw [Function.comp_apply]
    dsimp only
    rw [toArray_getD, range_map]
    refine Equation.exact_ofFn (fun j => ?_) (r i)
    rw [SparseRow.get_exact (holds i), identityEntry_exact, Extended.finite_mul,
      Extended.finite_sub, ← padded_single, drift i]
    rfl
  have length : (LinearSystem.equationsOf (valueCoefficients γ (P.transition (p.rule P))) r).length = n :=
    List.length_ofFn
  rw [equations, LinearSystem.solveSparse, List.length_map, length, solved]
  simp only [← exactVector_toList, Array.toArray_toList]

theorem evaluatePolicy_exact (described : m.Describes P) (stochastic : P.Stochastic)
    (unmerged : P.Unmerged) (nonneg : 0 ≤ γ) (below : γ < 1) (accepted : stationaryPolicy m given = .ok p)
    (exact : p.SumsToOne) (sparse : Bool) :
    evaluatePolicy m (.objective (.infinite (.finite γ))) given sparse
      = .ok (exactVector (P.value γ (p.rule P))) := by
  cases sparse with
  | false => exact value_dense described stochastic unmerged nonneg below accepted exact
  | true => exact value_sparse described stochastic unmerged nonneg below accepted exact

end Evaluation

end MarkovDecision
