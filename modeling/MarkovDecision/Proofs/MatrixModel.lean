import MarkovDecision.Model.Matrices
import MarkovDecision.Proofs.ListedModel
import MarkovDecision.Proofs.MergedModel
import MarkovDecision.Proofs.PolicyMatrix

namespace MarkovDecision

variable {n : Nat} {K : Type}

structure MatrixAction (n : Nat) (K : Type) where
  chance : Fin n → Fin n → K
  reward : (Fin n → K) ⊕ (Fin n → Fin n → K)

def Branch.chance (b : Branch n K) : Chance K := ⟨(b.next : Nat), b.probability, b.reward⟩

def exactMatrix (f : Fin n → Fin n → K) : Tensor (Extended K) := .ofRows n (Array.ofFn fun i => exactVector (f i))

namespace MatrixAction

def pays (c : MatrixAction n K) (s j : Fin n) : K := c.reward.elim (fun r => r s) fun r => r s j

def tensors (c : MatrixAction n K) : Tensor (Extended K) × Tensor (Extended K) :=
  (exactMatrix c.chance, c.reward.elim (fun r => .ofVector (exactVector r)) exactMatrix)

variable [Field K] [LinearOrder K]

def outcomes (c : MatrixAction n K) (s : Fin n) : List (Branch n K) :=
  ((List.finRange n).filter fun j => c.chance s j ≠ 0).map fun j => ⟨j, c.chance s j, c.pays s j⟩

structure Stochastic (c : MatrixAction n K) : Prop where
  nonneg : ∀ s j, 0 ≤ c.chance s j
  total : ∀ s, ∑ j, c.chance s j = 1

section Outcomes

variable (c : MatrixAction n K) (s : Fin n)

theorem outcomes_sum (h : Branch n K → K) : ((c.outcomes s).map fun b => b.probability * h b).sum
    = ∑ j, c.chance s j * h ⟨j, c.chance s j, c.pays s j⟩ := by
  have zeros : (((List.finRange n).filter fun j => ¬c.chance s j ≠ 0).map
      fun j => c.chance s j * h ⟨j, c.chance s j, c.pays s j⟩).sum = 0 := by
    refine List.sum_eq_zero fun x member => ?_
    obtain ⟨j, inside, rfl⟩ := List.mem_map.mp member
    have zero : c.chance s j = 0 := by simpa using (List.mem_filter.mp inside).2
    rw [zero, zero_mul]
  rw [Fin.sum_univ_def, ← List.sum_map_filter_add_sum_map_filter_not (fun j => c.chance s j ≠ 0), zeros, add_zero,
    outcomes, List.map_map]
  rfl

theorem outcomes_mem {b : Branch n K} (member : b ∈ c.outcomes s) :
    b.probability ≠ 0 ∧ b.probability = c.chance s b.next := by
  obtain ⟨j, inside, rfl⟩ := List.mem_map.mp member
  exact ⟨of_decide_eq_true (List.mem_filter.mp inside).2, rfl⟩

theorem outcomes_ascending : ((c.outcomes s).map Branch.next).Pairwise (· < ·) := by
  have next : (c.outcomes s).map Branch.next = (List.finRange n).filter fun j => c.chance s j ≠ 0 := by
    rw [outcomes, List.map_map]
    exact List.map_id _
  rw [next]
  exact (List.pairwise_lt_finRange n).filter _

end Outcomes

theorem Stochastic.acceptable [IsStrictOrderedRing K] {c : MatrixAction n K} (stochastic : c.Stochastic) (s : Fin n) :
    Chance.Acceptable n ((c.outcomes s).map Branch.chance) := by
  have total : ((c.outcomes s).map Branch.probability).sum = 1 := by
    have sum := c.outcomes_sum s fun _ => 1
    simp only [mul_one] at sum
    exact sum.trans (stochastic.total s)
  have chances : ((c.outcomes s).map Branch.chance).map (·.probability) = (c.outcomes s).map Branch.probability :=
    List.map_map
  refine ⟨fun none => ?_, ?_, ?_, ?_, ?_⟩
  · rw [List.map_eq_nil_iff.mp none] at total
    exact zero_ne_one total
  · intro e member
    obtain ⟨b, _, rfl⟩ := List.mem_map.mp member
    exact ⟨Int.natCast_nonneg _, by simp [Branch.chance]⟩
  · intro e member
    obtain ⟨b, listed, rfl⟩ := List.mem_map.mp member
    obtain ⟨nonzero, same⟩ := c.outcomes_mem s listed
    have nonneg := stochastic.nonneg s b.next
    rw [← same] at nonneg
    exact lt_of_le_of_ne nonneg nonzero.symm
  · intro e member
    obtain ⟨b, listed, rfl⟩ := List.mem_map.mp member
    have single : c.chance s b.next ≤ ∑ j, c.chance s j :=
      Finset.single_le_sum (fun j _ => stochastic.nonneg s j) (Finset.mem_univ _)
    rw [stochastic.total, ← (c.outcomes_mem s listed).2] at single
    exact single.trans (le_add_of_nonneg_right (by positivity))
  · rw [chances, total, sub_self, abs_zero]
    positivity

end MatrixAction

theorem exactMatrix_shape (f : Fin n → Fin n → K) : (exactMatrix f).shape = [n, n] := by
  simp [exactMatrix, Tensor.ofRows]

section Rows

variable [Field K] [LinearOrder K] [FloorRing K]

theorem exactMatrix_cell (f : Fin n → Fin n → K) (i j : Fin n) :
    FlatModel.cellAt (exactMatrix f) ((i : Nat) * n + j) = .finite (f i j) := by
  let rows := List.ofFn fun i => (exactVector (f i)).toList
  have cells : (exactMatrix f).cells = rows.flatten.toArray := by
    rw [exactMatrix, Tensor.ofRows]
    dsimp only
    rw [← Array.foldl_toList, foldl_append, Array.empty_append, Array.toList_ofFn, List.map_ofFn]
    rfl
  have lengths : rows.map List.length = List.replicate n n := by
    simp [rows, List.ofFn_const, Function.comp_def]
  have place := flatten_place rows (k := i) (a := j) (by simp [rows]) (by simp [rows])
  have start : (offsets (rows.map List.length)).getD i 0 = (i : Nat) * n := by
    rw [lengths, offsets_getD _ (by simp), List.take_replicate, List.sum_replicate]
    simp
  rw [start] at place
  rw [FlatModel.cellAt, cells, Array.getD_eq_getD_getElem?, List.getElem?_toArray, place]
  simp [rows, exactVector]

namespace MatrixAction

variable (c : MatrixAction n K) (s : Fin n)

theorem tensors_pay (j : Fin n) :
    (if c.tensors.2.shape.length == 1 then FlatModel.cellAt c.tensors.2 s
      else FlatModel.cellAt c.tensors.2 ((s : Nat) * n + j)) = .finite (c.pays s j) := by
  obtain ⟨chance, r | r⟩ := c
  · exact exactVector_getD r s
  · change (if (exactMatrix r).shape.length == 1 then _ else FlatModel.cellAt (exactMatrix r) _) = _
    rw [exactMatrix_shape]
    exact exactMatrix_cell r s j

theorem rowColumns_exact : FlatModel.rowColumns n c.tensors.1 c.tensors.2 s
    = Chance.columns ((c.outcomes s).map Branch.chance) := by
  have chance (j : Fin n) : FlatModel.cellAt c.tensors.1 ((s : Nat) * n + j) = .finite (c.chance s j) :=
    exactMatrix_cell c.chance s j
  have support : (List.range n).filter
        (fun j => !Scalar.eq (FlatModel.cellAt c.tensors.1 ((s : Nat) * n + j)) Scalar.zero)
      = ((List.finRange n).filter fun j => c.chance s j ≠ 0).map fun j : Fin n => (j : Nat) := by
    rw [← List.map_coe_finRange_eq_range, List.filter_map]
    congr 2
    funext j
    simp [chance]
  rw [FlatModel.rowColumns, support]
  simp only [List.map_map, Function.comp_def, chance, tensors_pay, Chance.columns, outcomes]
  rfl

end MatrixAction

end Rows

def Process.ofMatrices [Field K] [LinearOrder K] (actions : List (MatrixAction n K)) (some : actions ≠ []) :
    Process n K where
  actionCount _ := actions.length
  hasAction _ := List.length_pos_iff.mpr some
  branches s a := actions[a].outcomes s

namespace Process

variable [Field K] [LinearOrder K] {actions : List (MatrixAction n K)} (some : actions ≠ [])

theorem ofMatrices_unmerged : (ofMatrices actions some).Unmerged := fun s a =>
  (actions[a].outcomes_ascending s).imp ne_of_lt

theorem ofMatrices_transition (w : (ofMatrices actions some).Rule) (s j : Fin n) :
    (ofMatrices actions some).transition w s j = ∑ a : Fin actions.length, w s a * actions[a].chance s j := by
  have cell (a : Fin actions.length) :
      (ofMatrices actions some).mean (Pi.single j 1) s a = actions[a].chance s j := by
    refine (actions[a].outcomes_sum s fun b => (Pi.single j 1 : Fin n → K) b.next).trans ?_
    simp [Pi.single_apply]
  change ∑ a : Fin actions.length, w s a * (ofMatrices actions some).mean (Pi.single j 1) s a = _
  exact Finset.sum_congr rfl fun a _ => congrArg (w s a * ·) (cell a)

theorem ofMatrices_ruleReward (w : (ofMatrices actions some).Rule) (s : Fin n) :
    (ofMatrices actions some).ruleReward w s
      = ∑ a : Fin actions.length, w s a * ∑ j, actions[a].chance s j * actions[a].pays s j :=
  Finset.sum_congr rfl fun a _ => congrArg (w s a * ·) (actions[a].outcomes_sum s Branch.reward)

end Process

section Models

variable [Field K] [LinearOrder K] [FloorRing K] {actions : List (MatrixAction n K)}

namespace FlatModel

def matrixRows (actions : List (MatrixAction n K)) : List (List (Columns (Extended K))) :=
  (List.finRange n).map fun s => actions.map fun c => Chance.columns ((c.outcomes s).map Branch.chance)

omit [Field K] [LinearOrder K] [FloorRing K] in
theorem matrices_checked (actions : List (MatrixAction n K)) :
    checkMatrices n (actions.map MatrixAction.tensors) = .ok () := by
  induction actions with
  | nil => rfl
  | cons c rest ih =>
    have rewards : (c.tensors.2.shape != [n] && c.tensors.2.shape != [n, n]) = false := by
      obtain ⟨chance, r | r⟩ := c
      · simp [MatrixAction.tensors, Tensor.ofVector]
      · simp [MatrixAction.tensors, exactMatrix_shape]
    have chances : (c.tensors.1.shape != [n, n]) = false := by simp [MatrixAction.tensors, exactMatrix_shape]
    rw [List.map_cons, checkMatrices, chances, rewards]
    exact ih

theorem ofMatrices_build (some : actions ≠ []) (merge : Bool) :
    ofMatrices (actions.map MatrixAction.tensors) merge = (do
      let m ← build defaultTolerance ((matrixRows actions).map fun row => .ok (row.map fun c => .ok (.ofColumns c)))
      if merge then (Model.flat m).flatten true else return m) := by
  have count (c : MatrixAction n K) : c.tensors.1.length? = Option.some n := by
    simp [MatrixAction.tensors, Tensor.length?, exactMatrix_shape]
  have opening : ofMatrices (actions.map MatrixAction.tensors) merge = (do
      let m ← build defaultTolerance ((List.range n).map fun s => .ok ((actions.map MatrixAction.tensors).map fun x =>
        .ok (.ofColumns (rowColumns n x.1 x.2 s))))
      if merge then (Model.flat m).flatten true else return m) := by
    obtain ⟨c, rest, rfl⟩ := List.exists_cons_of_ne_nil some
    have checked := matrices_checked (c :: rest)
    rw [List.map_cons] at checked ⊢
    rw [ofMatrices]
    dsimp only
    rw [count]
    dsimp only
    rw [checked, Outcome.ok_bind]
  rw [opening]
  refine congrArg (fun rows => build defaultTolerance rows >>= _) ?_
  rw [← List.map_coe_finRange_eq_range, List.map_map, matrixRows, List.map_map]
  refine List.map_congr_left fun s _ => congrArg Except.ok ?_
  rw [List.map_map, List.map_map]
  exact List.map_congr_left fun c _ => congrArg (fun x => Except.ok (ActionArrays.ofColumns x)) (c.rowColumns_exact s)

section Stochastic

variable [IsStrictOrderedRing K] (states : 0 < n) (some : actions ≠ [])
  (stochastic : ∀ c ∈ actions, c.Stochastic)

include states some stochastic

theorem matrixRows_buildable : Buildable (matrixRows actions) := by
  have length : (matrixRows actions).length = n := by simp [matrixRows]
  refine ⟨fun none => ?_, fun row member => ?_⟩
  · rw [none] at length
    exact states.ne length
  · rw [length]
    obtain ⟨s, _, rfl⟩ := List.mem_map.mp member
    refine ⟨by simpa using some, fun c member => ?_⟩
    obtain ⟨c, inActions, rfl⟩ := List.mem_map.mp member
    exact admissible_exact.mpr ((stochastic c inActions).acceptable s)

theorem matrixRows_laid : build defaultTolerance ((matrixRows actions).map fun row =>
    .ok (row.map fun c => .ok (.ofColumns c))) = .ok (laid (matrixRows actions)) := by
  obtain ⟨buildable, each⟩ := matrixRows_buildable states some stochastic
  exact build_laid buildable each

theorem matrixRows_lists : (laid (matrixRows actions)).Lists (matrixRows actions) :=
  laid_lists fun row member => ((matrixRows_buildable states some stochastic).2 row member).2

-- There is nothing to merge, as long as every state has a word for its name.
theorem matrixRows_merged (words : n ≤ 2 ^ 63) :
    (Model.flat (laid (matrixRows actions))).flatten true = .ok (laid (matrixRows actions)) := by
  have columned : (Model.flat (laid (matrixRows actions))).Columned (matrixRows actions) := by
    refine laid_columned (matrixRows_lists states some stochastic) fun row inRows c inRow => ?_
    obtain ⟨s, _, rfl⟩ := List.mem_map.mp inRows
    obtain ⟨c, _, rfl⟩ := List.mem_map.mp inRow
    refine ⟨by simp [Columns.Even, Chance.columns], fun i member => ?_⟩
    obtain ⟨e, listed, rfl⟩ := List.mem_map.mp member
    obtain ⟨b, _, rfl⟩ := List.mem_map.mp listed
    have below := b.next.isLt
    rw [Literal.inWord_iff, Branch.chance]
    dsimp only
    omega
  have kept : (matrixRows actions).map (List.map (Columns.kept true)) = matrixRows actions := by
    rw [matrixRows, List.map_map]
    refine List.map_congr_left fun s _ => ?_
    rw [Function.comp_apply, List.map_map]
    refine List.map_congr_left fun c inActions => ?_
    have positive := ((stochastic c inActions).acceptable s).positive
    have ascending : (((c.outcomes s).map Branch.chance).map (·.next)).Pairwise (· < ·) := by
      have next := (c.outcomes_ascending s).map (fun j : Fin n => ((j : Nat) : Int))
        (fun _ _ below => Int.ofNat_lt.mpr below)
      rw [List.map_map] at next ⊢
      exact next
    change (Chance.columns ((c.outcomes s).map Branch.chance)).merged = _
    rw [Chance.columns_merged, positive.merge_of_ascending ascending]
  rw [columned.flatten true, kept]
  exact matrixRows_laid states some stochastic

theorem matrixRows_transitions (s : Fin n) (a : Fin actions.length) :
    (laid (matrixRows actions)).transitions (s : Nat) (a : Nat)
      = .ok ((actions[a].outcomes s).map Branch.transition) := by
  have listed := (matrixRows_lists states some stochastic).outcomes s (by simp [matrixRows]) a (by simp [matrixRows])
  rw [listed]
  simp only [matrixRows, List.getElem_map, List.getElem_finRange, Columns.transitions, Chance.columns_transitions,
    List.map_map]
  rfl

theorem matrixRows_describes :
    (Model.flat (laid (matrixRows actions))).Describes (Process.ofMatrices actions some) := by
  have lists := matrixRows_lists states some stochastic
  refine ⟨?_, fun s => ?_, fun s a => ⟨_, matrixRows_transitions states some stochastic s a, ?_⟩, lists.covers⟩
  · exact lists.states.trans (by simp [matrixRows])
  · exact (lists.actions s (by simp [matrixRows])).trans (by simp [matrixRows, Process.ofMatrices])
  · exact List.forall₂_map_left_iff.mpr (List.forall₂_same.mpr fun b _ => ⟨rfl, rfl, rfl⟩)

end Stochastic

end FlatModel

-- Matrices whose rows are distributions always make a model. Each action lists the nonzero entries of its row,
-- merging changes nothing (an array has no more rows than there are words to name them), and the reward process
-- of a policy mixes the matrices and the rewards of the actions by its weights.
theorem matrices_model [IsStrictOrderedRing K] (states : 0 < n) (some : actions ≠ [])
    (stochastic : ∀ c ∈ actions, c.Stochastic) :
    ∃ f : FlatModel (Extended K), FlatModel.ofMatrices (actions.map MatrixAction.tensors) false = .ok f ∧
      (n ≤ 2 ^ 63 → FlatModel.ofMatrices (actions.map MatrixAction.tensors) true = .ok f) ∧ f.stateCount = n ∧
      (∀ s : Fin n, f.actionCount (s : Nat) = .ok (actions.length : Int) ∧ ∀ a : Fin actions.length,
        f.transitions (s : Nat) (a : Nat) = .ok ((actions[a].outcomes s).map Branch.transition)) ∧
      (∀ given e, RewardProcess.ofPolicy (.flat f) given = .error e → e.kind ≠ .structural) ∧
      ∀ given p, stationaryPolicy (.flat f) given = .ok p → (∀ s < n, p.Readable s) →
        RewardProcess.ofPolicy (.flat f) given = .ok (.ofCells
          (fun s j => ∑ a : Fin actions.length, p.rule (.ofMatrices actions some) s a * actions[a].chance s j)
          fun s => ∑ a : Fin actions.length, p.rule (.ofMatrices actions some) s a *
            ∑ j, actions[a].chance s j * actions[a].pays s j) := by
  have made := FlatModel.matrixRows_laid states some stochastic
  have described := FlatModel.matrixRows_describes states some stochastic
  refine ⟨FlatModel.laid (FlatModel.matrixRows actions), ?_, fun words => ?_, described.states,
    fun s => ⟨described.actions s, FlatModel.matrixRows_transitions states some stochastic s⟩,
    fun given e failed => RewardProcess.ofPolicy_unmerged described (Process.ofMatrices_unmerged some) failed,
    fun given p accepted readable => ?_⟩
  · rw [FlatModel.ofMatrices_build some, made]
    rfl
  · rw [FlatModel.ofMatrices_build some, made]
    exact FlatModel.matrixRows_merged states some stochastic words
  · obtain ⟨_, valid, stationary⟩ := stationaryPolicy_ok.mp accepted
    have weighted := exactWeights_of_valid described valid stationary readable
    rw [ofPolicy_exact described (Process.ofMatrices_unmerged some) accepted weighted]
    refine congrArg Except.ok (congrArg₂ RewardProcess.ofCells ?_ ?_)
    · funext s j
      exact Process.ofMatrices_transition some _ s j
    · funext s
      exact Process.ofMatrices_ruleReward some _ s

end Models

def MatrixAction.waiting : MatrixAction 2 ℚ := ⟨![![1 / 2, 1 / 2], ![0, 1]], .inl ![1, 0]⟩

def MatrixAction.going : MatrixAction 2 ℚ := ⟨![![0, 1], ![0, 1]], .inr ![![0, 2], ![0, 0]]⟩

theorem matrices_model_undecided : ∃ f : FlatModel (Extended ℚ),
    FlatModel.ofMatrices [MatrixAction.waiting.tensors, MatrixAction.going.tensors] false = .ok f ∧
    FlatModel.ofMatrices [MatrixAction.waiting.tensors, MatrixAction.going.tensors] true = .ok f ∧
    f.transitions 0 1 = .ok [⟨.index 1, .real (.finite 1), .real (.finite 2)⟩] ∧
    RewardProcess.ofPolicy (.flat f) (.policy .undecided)
      = .ok (.ofCells ![![1 / 4, 3 / 4], ![0, 1]] ![3 / 2, 0]) := by
  have stochastic : ∀ c ∈ [MatrixAction.waiting, MatrixAction.going], c.Stochastic := by
    simp only [List.forall_mem_cons, List.not_mem_nil, false_implies, implies_true, and_true]
    refine ⟨⟨?_, ?_⟩, ⟨?_, ?_⟩⟩ <;> decide +kernel
  obtain ⟨f, made, merged, _, outcomes, _, follows⟩ :=
    matrices_model (by decide) (List.cons_ne_nil _ _) stochastic
  have passed : (match FlatModel.ofMatrices [MatrixAction.waiting.tensors, MatrixAction.going.tensors] false with
    | .ok f => (Policy.undecided.validate (.flat f) none).isOk
    | .error _ => false) = true := by decide +kernel
  have made' : FlatModel.ofMatrices [MatrixAction.waiting.tensors, MatrixAction.going.tensors] false = .ok f := made
  rw [made'] at passed
  obtain ⟨_, valid⟩ := Outcome.exists_ok passed
  have accepted : stationaryPolicy (.flat f) (.policy .undecided) = .ok .undecided :=
    stationaryPolicy_ok.mpr ⟨rfl, valid, rfl⟩
  have readable : ∀ s < 2, Policy.undecided.Readable s := by
    intro s inside
    interval_cases s <;> exact ⟨_, rfl⟩
  refine ⟨f, made, merged (by norm_num), ?_, ?_⟩
  · exact (outcomes 0).2 1
  · refine (follows _ _ accepted readable).trans (congrArg Except.ok (congrArg₂ RewardProcess.ofCells ?_ ?_))
    · decide +kernel
    · decide +kernel

end MarkovDecision
