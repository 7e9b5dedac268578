import MarkovDecision.PolicyIteration
import MarkovDecision.Proofs.ExactSums
import MarkovDecision.Proofs.PolicyValue
import MarkovDecision.Proofs.RewardProcesses

namespace MarkovDecision

section Solvers

variable {K : Type} [Field K] {n : Nat}

theorem valueCoefficients_matrix (γ : K) (t : Fin n → Fin n → K) :
    Matrix.of (valueCoefficients γ t) = 1 - γ • Matrix.of t := by
  ext i j
  rw [Matrix.sub_apply, Matrix.one_apply]
  rfl

variable [LinearOrder K] [FloorRing K] [IsStrictOrderedRing K]

theorem LinearSystem.solve_agrees {A : Fin n → Fin n → K} (nonsingular : (Matrix.of A).det ≠ 0) (r : Fin n → K) :
    ∃ x : Fin n → K, (Matrix.of A).mulVec x = r ∧
      solve ((equationsOf A r).map Equation.exact) = some ((List.ofFn x).map .finite) ∧
      solveSparse ((equationsOf A r).map Equation.exact) = some ((List.ofFn x).map .finite) := by
  have kernel (x : Fin n → K) (zero : ∀ i, ∑ j, A i j * x j = 0) : x = 0 :=
    Matrix.eq_zero_of_mulVec_eq_zero nonsingular (funext zero)
  have length : ((equationsOf A r).map Equation.exact).length = n := by
    rw [List.length_map]
    exact List.length_ofFn
  obtain ⟨x, dense, solves⟩ := indexed_solves A r faithful_dense kernel
  obtain ⟨y, sparse, solves'⟩ := indexed_solves A r faithful_sparse kernel
  have apart : x - y = 0 := kernel _ fun i => by
    simp only [Pi.sub_apply, mul_sub, Finset.sum_sub_distrib, solves, solves', sub_self]
  obtain rfl := sub_eq_zero.mp apart
  exact ⟨x, funext solves, by rw [solve, length, dense], by rw [solveSparse, length, sparse]⟩

end Solvers

namespace RewardProcess

section Equations

variable {α : Type} [Scalar α] {n : Nat} {dense : RewardProcess α} {sparse : SparseRewardProcess α}

theorem Agrees.equations (agrees : Agrees n dense sparse) (discount : α) :
    sparse.equations discount = dense.equations discount := by
  obtain ⟨reward, ⟨size, _, height, _⟩, cells⟩ := agrees
  rw [SparseRewardProcess.equations, RewardProcess.equations]
  dsimp only
  rw [← reward, size]
  refine List.ext_getElem (by simp [height]) fun i inside _ => ?_
  have below : i < n := by simpa [height] using inside
  obtain ⟨row, entries, inDense, inSparse, _, same⟩ := cells i below
  obtain ⟨_, listed⟩ := List.getElem?_eq_some_iff.mp inSparse
  simp only [List.getElem_map, List.getElem_zipIdx, List.getElem_range, zero_add, listed,
    Array.getD_eq_getD_getElem?, inDense, Option.getD_some, Equation.mk.injEq, and_true]
  refine List.map_congr_left fun j member => ?_
  rw [same j (List.mem_range.mp member), Option.getD_some]

end Equations

variable {K : Type} [Field K] [LinearOrder K] [FloorRing K] {n : Nat}

def cells (process : RewardProcess (Extended K)) (i j : Fin process.reward.size) : K :=
  ((process.transition.getD i #[]).getD j Scalar.zero).real

def gains (process : RewardProcess (Extended K)) (i : Fin process.reward.size) : K :=
  (process.reward.getD i Scalar.zero).real

structure Exact (process : RewardProcess (Extended K)) : Prop where
  cells : ∀ i j : Fin process.reward.size,
    (process.transition.getD i #[]).getD j Scalar.zero = .finite (process.cells i j)
  gains : ∀ i : Fin process.reward.size, process.reward.getD i Scalar.zero = .finite (process.gains i)

def Nonsingular (process : RewardProcess (Extended K)) (γ : K) : Prop :=
  (1 - γ • Matrix.of process.cells).det ≠ 0

theorem nonsingular_of_cells {process : RewardProcess (Extended K)} (size : process.reward.size = n)
    {t : Fin n → Fin n → K} {γ : K}
    (cells : ∀ i j : Fin n, (process.transition.getD i #[]).getD j Scalar.zero = .finite (t i j))
    (nonsingular : (1 - γ • Matrix.of t).det ≠ 0) : process.Nonsingular γ := by
  subst size
  have same : process.cells = t := by
    funext i j
    rw [RewardProcess.cells, cells i j]
    rfl
  rwa [Nonsingular, same]

theorem nonsingular_ofCells {t : Fin n → Fin n → K} {r : Fin n → K} {γ : K}
    (nonsingular : (1 - γ • Matrix.of t).det ≠ 0) : (ofCells t r).Nonsingular γ :=
  nonsingular_of_cells (exactVector_size _)
    (fun i j => by rw [ofCells, ofFn_cell, exactVector_getD]) nonsingular

theorem Exact.equations {process : RewardProcess (Extended K)} (exact : process.Exact) (γ : K) :
    process.equations (.finite γ)
      = (LinearSystem.equationsOf (valueCoefficients γ process.cells) process.gains).map Equation.exact := by
  rw [RewardProcess.equations, LinearSystem.equationsOf]
  dsimp only
  rw [range_map, List.map_ofFn]
  refine congrArg List.ofFn (funext fun i => ?_)
  rw [exact.gains i, range_map]
  refine Equation.exact_ofFn (fun j => ?_) (process.gains i)
  rw [exact.cells i j, identityEntry_exact, Extended.finite_mul, Extended.finite_sub]
  rfl

theorem Agrees.value [IsStrictOrderedRing K] {dense : RewardProcess (Extended K)}
    {sparse : SparseRewardProcess (Extended K)} (agrees : Agrees n dense sparse) (exact : dense.Exact) {γ : K}
    (nonsingular : dense.Nonsingular γ) : dense.value (.finite γ) = .ok (sparse.value (.finite γ)) := by
  rw [Nonsingular, ← valueCoefficients_matrix] at nonsingular
  obtain ⟨x, _, solved, solved'⟩ := LinearSystem.solve_agrees nonsingular dense.gains
  rw [RewardProcess.value, SparseRewardProcess.value, agrees.equations, exact.equations, solved, solved']

end RewardProcess

section Exactness

variable {K : Type} [Field K] [LinearOrder K] [FloorRing K] {n : Nat} {m : Model (Extended K)}

namespace Collected

def Exact (x : Collected n (Extended K)) : Prop := (∀ e ∈ x.1, ∃ p, e.2 = .finite p) ∧ ∃ r, x.2 = .finite r

theorem cell_exact {entries : List (Fin n × Extended K)} (exact : ∀ e ∈ entries, ∃ p, e.2 = .finite p) (j : Nat) :
    ∃ p, cell entries j = .finite p := by
  induction entries using List.reverseRecOn with
  | nil => exact ⟨0, Extended.zero_eq⟩
  | append_singleton entries e ih =>
    obtain ⟨i, _⟩ := e
    obtain ⟨total, known⟩ := ih fun e member => exact e (List.mem_append_left _ member)
    obtain ⟨p, rfl⟩ := exact (i, _) (List.mem_append_right _ List.mem_cons_self)
    rw [cell_append, known]
    by_cases here : (i : Nat) = j
    · exact ⟨total + p, if_pos here⟩
    · exact ⟨total, if_neg here⟩

end Collected

theorem RewardProcess.ofRows_exact {rows : List (Collected n (Extended K))} (length : rows.length = n)
    (exact : ∀ x ∈ rows, x.Exact) : (ofRows rows).Exact := by
  have known {x : Extended K} (exact : ∃ y, x = .finite y) : x = .finite x.real := by
    obtain ⟨y, rfl⟩ := exact
    rfl
  have place (i : Fin (ofRows rows).reward.size) : (i : Nat) < n := by
    simpa [ofRows, length] using i.isLt
  have found (i : Fin (ofRows rows).reward.size) : ∃ x ∈ rows, rows[(i : Nat)]? = some x := by
    have inside : (i : Nat) < rows.length := by rw [length]; exact place i
    exact ⟨_, List.getElem_mem inside, List.getElem?_eq_getElem inside⟩
  refine ⟨fun i j => known ?_, fun i => known ?_⟩
  · obtain ⟨x, member, here⟩ := found i
    obtain ⟨p, finite⟩ := Collected.cell_exact (exact x member).1 j
    have row : (ofRows rows).transition.getD i #[] = Collected.denseRow x.1 := by
      simp [ofRows, here]
    refine ⟨p, ?_⟩
    rw [row, Array.getD_eq_getD_getElem?, (Collected.denseRow_cells x.1).2 j (place j), Option.getD_some, finite]
  · obtain ⟨x, member, here⟩ := found i
    obtain ⟨r, finite⟩ := (exact x member).2
    exact ⟨r, by simp [ofRows, here, finite]⟩

theorem stationaryPolicy_policy {p q : Policy (Extended K)} (accepted : stationaryPolicy m (.policy p) = .ok q) :
    q = p := (Except.ok.inj (stationaryPolicy_ok.mp accepted).1).symm

namespace RewardProcess

theorem collected_exact (exact : m.Exact) {actions : Array Int} {s a : Nat} (found : actions[s]? = some (a : Int))
    {x : Collected m.stateCount (Extended K)} (done : collected m (.stationary actions) s = .ok x) : x.Exact := by
  have listed : (Policy.stationary actions : Policy (Extended K)).distribution (s : Nat) 0
      = .ok [((a : Nat), Scalar.one)] := by
    rw [Policy.distribution, Policy.distribution?, entry_ok.mpr found]
    rfl
  rw [collected, Model.foldOutcomes, listed, Outcome.ok_bind, List.foldlM_cons] at done
  obtain ⟨_, walked, same⟩ := Outcome.bind_ok.mp done
  cases same
  obtain ⟨ts, known, walked⟩ := Outcome.bind_ok.mp walked
  refine Model.foldAction_keeps ?_ (exact s a ts known) ⟨by simp, 0, Extended.zero_eq⟩ walked
  rintro acc t acc' ⟨entries, r, total⟩ ⟨⟨p, probability⟩, gain, reward⟩ stepped
  cases stepped
  rw [probability, reward, total, Extended.one_eq, Extended.finite_mul, Extended.finite_mul, Extended.finite_add]
  cases t.next.state? m.stateCount with
  | none => exact ⟨entries, r, total⟩
  | some j =>
    refine ⟨fun e member => ?_, _, rfl⟩
    rcases List.mem_append.mp member with before | new
    · exact entries e before
    · exact ⟨1 * p, by rw [List.mem_singleton.mp new]⟩

theorem collectedRows_exact (listed : m.Listed) (exact : m.Exact) {actions : Array Int}
    {rows : List (Collected m.stateCount (Extended K))}
    (done : collectedRows m (.policy (.stationary actions)) = .ok rows) : ∀ x ∈ rows, x.Exact := by
  obtain ⟨p, accepted, done⟩ := Outcome.bind_ok.mp done
  obtain ⟨_, valid, stationary⟩ := stationaryPolicy_ok.mp accepted
  obtain rfl := stationaryPolicy_policy accepted
  obtain ⟨length, each⟩ := Outcome.mapM_range_get done
  intro x member
  obtain ⟨s, inside, rfl⟩ := List.getElem_of_mem member
  rcases Policy.valid_rule valid stationary with ⟨_, same, _, checked⟩ | ⟨_, same, _⟩
  · cases same
    obtain ⟨k, count, _⟩ := listed s (length ▸ inside)
    obtain ⟨a, _, found⟩ := Policy.checkAction_ok count (checked s (length ▸ inside))
    exact collected_exact exact found (each s inside)
  · cases same

theorem ofPolicy_agrees (listed : m.Listed) (given : PolicyData (Extended K)) :
    (∃ e, ofPolicy m given = .error e ∧ SparseRewardProcess.ofPolicy m given = .error e) ∨
      ∃ rows, collectedRows m given = .ok rows ∧ ofPolicy m given = .ok (ofRows rows) ∧
        SparseRewardProcess.ofPolicy m given = .ok (SparseRewardProcess.ofRows rows) ∧
        Agrees m.stateCount (ofRows rows) (SparseRewardProcess.ofRows rows) := by
  have neutral (x : Extended K) : Scalar.zero + x = x := by rw [Extended.zero_eq, Extended.zero_plus]
  rw [ofPolicy_collected listed, SparseRewardProcess.ofPolicy_collected listed]
  cases collected : collectedRows m given with
  | error e => exact Or.inl ⟨e, rfl, rfl⟩
  | ok rows => exact Or.inr ⟨rows, rfl, rfl, rfl, rows_agree neutral (collectedRows_length collected)⟩

end RewardProcess

theorem evaluatePolicy_agrees [IsStrictOrderedRing K] (listed : m.Listed) (exact : m.Exact) {o : Objective (Extended K)}
    {γ : K} (factor : o.factor = .finite γ) {actions : Array Int}
    (nonsingular : ∀ process, RewardProcess.ofPolicy m (.policy (.stationary actions)) = .ok process →
      process.Nonsingular γ) :
    evaluatePolicy m (.objective o) (.policy (.stationary actions)) true
      = evaluatePolicy m (.objective o) (.policy (.stationary actions)) false := by
  rw [evaluatePolicy, evaluatePolicy, if_pos rfl, if_neg Bool.false_ne_true, factor]
  rcases RewardProcess.ofPolicy_agrees listed (.policy (.stationary actions)) with
    ⟨e, dense, sparse⟩ | ⟨rows, collected, dense, sparse, agrees⟩
  · rw [dense, sparse]
    rfl
  · have exact := RewardProcess.ofRows_exact (collectedRows_length collected)
      (RewardProcess.collectedRows_exact listed exact collected)
    rw [dense, sparse, Outcome.ok_bind, Outcome.ok_bind, agrees.value exact (nonsingular _ dense)]
    rfl

end Exactness

section Rows

variable {α β γ : Type}

def Journaled.SameRows (c d : Journaled α β) : Prop := ∀ j k : Journal α, j.rows = k.rows →
  (c.runOn j).1 = (d.runOn k).1 ∧ (c.runOn j).2.rows = (d.runOn k).2.rows

namespace Journaled.SameRows

theorem pure (x : β) : SameRows (Pure.pure x : Journaled α β) (Pure.pure x) := fun _ _ same => ⟨rfl, same⟩

theorem note (e : Event α) : SameRows (Journaled.note e) (Journaled.note e) := by
  intro j k same
  refine ⟨rfl, ?_⟩
  rw [note_runOn, note_runOn]
  cases e with
  | row step value => rw [rows_push_row, rows_push_row, same]
  | _ => rw [rows_push _ (by simp), rows_push _ (by simp), same]

theorem bind {c d : Journaled α β} {f g : β → Journaled α γ} (first : SameRows c d)
    (rest : ∀ x, SameRows (f x) (g x)) : SameRows (c >>= f) (d >>= g) := by
  intro j k same
  obtain ⟨outcome, rows⟩ := first j k same
  rw [InPlace.runOn_bind, InPlace.runOn_bind]
  rcases ran : c.runOn j with ⟨_ | x, j'⟩ <;> rcases ran' : d.runOn k with ⟨_ | x', k'⟩ <;>
    rw [ran, ran'] at outcome rows <;> cases outcome
  · exact ⟨rfl, rows⟩
  · exact rest x j' k' rows

theorem bind_lift {x y : Outcome α β} {f g : β → Journaled α γ} (equal : x = y)
    (rest : ∀ b, x = .ok b → SameRows (f b) (g b)) : SameRows (InPlace.lift x >>= f) (InPlace.lift y >>= g) := by
  subst equal
  cases x with
  | error e => exact fun _ _ same => ⟨rfl, same⟩
  | ok b => exact rest b rfl

theorem bind_rows (f : List (Nat × Quantity α) → β) :
    SameRows (get >>= fun journal : Journal α => Pure.pure (f journal.rows) : Journaled α β)
      (get >>= fun journal => Pure.pure (f journal.rows)) :=
  fun _ _ same => ⟨congrArg (fun rows => Except.ok (f rows)) same, same⟩

theorem begin (settings : Settings α) (algorithm other column : String) (o : Objective α) (states : Nat) :
    SameRows (Journaled.begin settings algorithm column o states)
      (Journaled.begin settings other column o states) := by
  unfold Journaled.begin
  dsimp only
  split
  · exact .bind (.note _) fun _ => fun _ _ same => ⟨rfl, same⟩
  · intro j k same
    refine ⟨rfl, ?_⟩
    rw [note_runOn, note_runOn, rows_push _ (by simp), rows_push _ (by simp), same]

end Journaled.SameRows

end Rows

namespace PolicyIteration

section Loops

variable {α : Type} {improve other : Array Int → Outcome α (Array α × Array Int)}

inductive Evaluated (improve : Array Int → Outcome α (Array α × Array Int)) : Nat → Array Int → Array Int → Prop
  | here (fuel : Nat) (actions : Array Int) : Evaluated improve (fuel + 1) actions actions
  | later {fuel : Nat} {actions next last : Array Int} {value : Array α} (round : improve actions = .ok (value, next))
      (changed : changedActions actions next ≠ 0) (rest : Evaluated improve fuel next last) :
      Evaluated improve (fuel + 1) actions last

theorem iterate_sameRows {fuel done : Nat} {p : Progress α}
    (agree : ∀ actions, Evaluated improve fuel p.actions actions → improve actions = other actions) :
    Journaled.SameRows (iterate improve fuel done p) (iterate other fuel done p) := by
  induction fuel generalizing done p with
  | zero => exact .pure p
  | succ fuel ih =>
    rw [iterate, iterate]
    refine .bind_lift (agree p.actions (.here fuel p.actions)) fun ⟨value, actions⟩ round => .bind (.note _) fun _ => ?_
    dsimp only
    by_cases stable : changedActions p.actions actions = 0
    · rw [if_pos (by simpa using stable), if_pos (by simpa using stable)]
      exact .pure _
    · rw [if_neg (by simpa using stable), if_neg (by simpa using stable)]
      exact ih fun last evaluated => agree last (.later round stable evaluated)

end Loops

variable {K : Type} [Field K] [LinearOrder K] [FloorRing K] {m : Model (Extended K)}

def Solvable (m : Model (Extended K)) (o : Objective (Extended K)) (γ : K) (initial : Option (PolicyData (Extended K)))
    (settings : Settings (Extended K)) : Prop :=
  ∀ first, initialActions m initial = .ok first →
    ∀ actions, Evaluated (improve m o false) settings.iterations first actions →
    ∀ process, RewardProcess.ofPolicy m (.policy (.stationary actions)) = .ok process → process.Nonsingular γ

theorem policyIteration_sameRows [IsStrictOrderedRing K] (listed : m.Listed) (exact : m.Exact)
    {o : Objective (Extended K)} {γ : K} (factor : o.factor = .finite γ) {initial : Option (PolicyData (Extended K))}
    {settings : Settings (Extended K)} (solvable : Solvable m o γ initial settings) :
    Journaled.SameRows (policyIteration m o initial settings false) (policyIteration m o initial settings true) := by
  cases o with
  | infinite discount =>
    refine .bind (.begin settings _ _ _ _ _) fun _ => .bind_lift rfl fun first known => .bind ?_ fun p =>
      .bind (.note _) fun _ => ?_
    · refine iterate_sameRows fun actions evaluated => ?_
      rw [improve, improve, evaluatePolicy_agrees listed exact factor (solvable first known actions evaluated)]
    · have result := Journaled.SameRows.bind_rows (α := Extended K) fun rows => (⟨p.value, .stationary p.actions,
        p.iterations, p.converged, ⟨stepName, valueName, rows⟩⟩ : PolicyIterationResult (Extended K))
      dsimp only
      split
      · exact .bind (.note _) fun _ => result
      · exact result
  | _ => exact fun _ _ same => ⟨rfl, same⟩

theorem solvable_of_nonsingular {n : Nat} {P : Process n K} (described : m.Describes P) (unmerged : P.Unmerged) {γ : K}
    (nonsingular : ∀ d : P.Selection, (1 - γ • Matrix.of (P.transition (P.sure d))).det ≠ 0)
    (initial : Option (PolicyData (Extended K))) (settings : Settings (Extended K)) :
    Solvable m (.infinite (.finite γ)) γ initial settings := by
  intro _ _ actions _ process made
  obtain ⟨p, accepted, _⟩ := Outcome.bind_ok.mp made
  obtain rfl := stationaryPolicy_policy accepted
  obtain ⟨d, rfl⟩ := valid_stationary described (stationaryPolicy_ok.mp accepted).2.1
  rw [ofPolicy_exact described unmerged accepted trivial, Policy.rule_stationary] at made
  cases made
  exact RewardProcess.nonsingular_ofCells (nonsingular d)

theorem solvable_discounted [IsStrictOrderedRing K] {n : Nat} {P : Process n K} (described : m.Describes P)
    (stochastic : P.Stochastic) (unmerged : P.Unmerged) {γ : K} (nonneg : 0 ≤ γ) (below : γ < 1)
    (initial : Option (PolicyData (Extended K))) (settings : Settings (Extended K)) :
    Solvable m (.infinite (.finite γ)) γ initial settings :=
  solvable_of_nonsingular described unmerged (fun d => Process.transition_nonsingular stochastic
    (Process.sure_distribution P d) nonneg below) initial settings

end PolicyIteration

section Results

variable {K : Type} [Field K] [LinearOrder K] [FloorRing K] {m : Model (Extended K)} {p : Policy (Extended K)}

-- The two forms of a reward process fail alike or hold the same numbers. An accepted policy is refused for a
-- repeated next state exactly if some state, whose weights and those of all states before it can be read,
-- takes an action that repeats one; the only other refusal is that of weights that cannot be read. So policy
-- iteration has the same result with either form, if all systems it solves have one solution.
theorem sparse_runs_agree [IsStrictOrderedRing K] (listed : m.Listed) :
    (∀ given,
      ((∃ e, RewardProcess.ofPolicy m given = .error e ∧ SparseRewardProcess.ofPolicy m given = .error e) ∨
        ∃ dense sparse, RewardProcess.ofPolicy m given = .ok dense ∧ SparseRewardProcess.ofPolicy m given = .ok sparse ∧
          RewardProcess.Agrees m.stateCount dense sparse) ∧
      (∀ e, stationaryPolicy m given = .error e → RewardProcess.ofPolicy m given = .error e ∧ e.kind ≠ .structural) ∧
      ∀ p, stationaryPolicy m given = .ok p →
        ((∃ e, RewardProcess.ofPolicy m given = .error e ∧ e.kind = .structural) ↔
          ∃ s < m.stateCount, (∀ r ≤ s, p.Readable r) ∧ ∃ a, p.Takes s a ∧ m.Repeats s a) ∧
        ∀ e, RewardProcess.ofPolicy m given = .error e →
          e.kind = .structural ∨ e = .invalidInput ∧ ∃ s < m.stateCount, ¬p.Readable s) ∧
    (m.Exact → ∀ o γ, o.factor = .finite γ → ∀ initial settings, PolicyIteration.Solvable m o γ initial settings →
      ∀ j, ((policyIteration m o initial settings true).runOn j).1
        = ((policyIteration m o initial settings false).runOn j).1) := by
  have rowed (given : PolicyData (Extended K)) (e : Failure (Extended K)) :
      RewardProcess.ofPolicy m given = .error e ↔ RewardProcess.collectedRows m given = .error e := by
    rw [RewardProcess.ofPolicy_collected listed]
    cases RewardProcess.collectedRows m given <;> simp
  refine ⟨fun given => ⟨?_, fun e refused => ⟨?_, ?_⟩, fun p accepted => ⟨?_, fun e failed => ?_⟩⟩,
    fun exact o γ factor initial settings solvable j => ?_⟩
  · rcases RewardProcess.ofPolicy_agrees listed given with failed | ⟨rows, _, dense, sparse, agrees⟩
    · exact Or.inl failed
    · exact Or.inr ⟨_, _, dense, sparse, agrees⟩
  · rw [RewardProcess.ofPolicy, refused, Outcome.error_bind]
  · refine stationaryPolicy_failure (fun s inside => ?_) refused
    obtain ⟨k, count, _⟩ := listed s inside
    exact ⟨k, count⟩
  · simp only [rowed]
    exact collectedRows_structural listed accepted
  · obtain ⟨s, inside, _, ⟨same, unreadable⟩ | ⟨kind, _⟩⟩ :=
      collectedRows_stopped listed accepted ((rowed given e).mp failed)
    · exact Or.inr ⟨same, s, inside, unreadable⟩
    · exact Or.inl kind
  · exact ((PolicyIteration.policyIteration_sameRows listed exact factor solvable j j rfl).1).symm

theorem sparse_runs_agree_leaving :
    (∃ dense sparse, RewardProcess.ofPolicy (.table Process.leaving.table) (.policy (.stationary #[0, 1])) = .ok dense ∧
      SparseRewardProcess.ofPolicy (.table Process.leaving.table) (.policy (.stationary #[0, 1])) = .ok sparse ∧
      RewardProcess.Agrees 2 dense sparse) ∧
    ((policyIteration (.table Process.leaving.table) (.infinite (.finite (1 / 2))) none (.quiet 10 1 0) true).runOn
        Journal.empty).1
      = ((policyIteration (.table Process.leaving.table) (.infinite (.finite (1 / 2))) none (.quiet 10 1 0) false).runOn
        Journal.empty).1 := by
  have described := table_describes Process.leaving
  obtain ⟨processes, runs⟩ := sparse_runs_agree described.listed
  constructor
  · rcases (processes (.policy (.stationary #[0, 1]))).1 with ⟨e, failed, _⟩ | agree
    · have made : (RewardProcess.ofPolicy (.table Process.leaving.table)
          (.policy (.stationary #[0, 1]))).isOk = true := by decide +kernel
      rw [failed] at made
      cases made
    · exact agree
  · exact runs (table_exact Process.leaving) _ (1 / 2) rfl none _ (PolicyIteration.solvable_discounted described
      Process.leaving_stochastic Process.leaving_unmerged (by norm_num) (by norm_num) none _) Journal.empty

def Policy.nested : Policy (Extended ℚ) :=
  .randomized #[.other ⟨[1, 2], #[.finite (1 / 2), .finite (1 / 2)]⟩, .perAction [.finite 1]]

-- The weights of the first state are nested, which no check refuses. They cannot be read, and the
-- action that repeats a next state is not reached.
theorem nested_weights_first :
    stationaryPolicy (.table Process.splitting.table) (.policy .nested) = .ok .nested ∧
    (∃ a, Policy.nested.Takes 1 a ∧ (Model.table Process.splitting.table).Repeats 1 a) ∧
    RewardProcess.ofPolicy (.table Process.splitting.table) (.policy .nested) = .error .invalidInput ∧
    SparseRewardProcess.ofPolicy (.table Process.splitting.table) (.policy .nested) = .error .invalidInput := by
  have listed := (table_describes Process.splitting).listed
  have accepted : stationaryPolicy (.table Process.splitting.table) (.policy .nested) = .ok .nested := by
    have passed : (stationaryPolicy (.table Process.splitting.table) (.policy .nested)).isOk = true := by decide +kernel
    cases accepted : stationaryPolicy (.table Process.splitting.table) (.policy .nested) with
    | error e =>
      rw [accepted] at passed
      cases passed
    | ok p => rw [stationaryPolicy_policy accepted]
  have stopped : RewardProcess.collectedRows (.table Process.splitting.table) (.policy .nested)
      = .error .invalidInput := by
    rw [RewardProcess.collectedRows, accepted, Outcome.ok_bind]
    refine Outcome.mapM_range_error.mpr ⟨0, Nat.two_pos, fun r before => absurd before (Nat.not_lt_zero r), rfl⟩
  have twice : (Model.table Process.splitting.table).Repeats 1 0 :=
    ⟨_, rfl, fun distinct => (List.nodup_cons.mp distinct).1 List.mem_cons_self⟩
  refine ⟨accepted, ⟨0, ⟨[.finite 1], .finite 1, 0, rfl, rfl, rfl, rfl⟩, twice⟩, ?_, ?_⟩
  · rw [RewardProcess.ofPolicy_collected listed, stopped]
    rfl
  · rw [SparseRewardProcess.ofPolicy_collected listed, stopped]
    rfl

end Results

end MarkovDecision
