import MarkovDecision.Proofs.PolicyRecovery

namespace MarkovDecision

variable {n : Nat} {K : Type}

-- Where the rows of a program stand: a state that is not fixed has one for each of its actions, in their order.
structure StateProgram.LaidOut {α : Type} (c : StateProgram α) (P : Process n K) (fixed : Fin n → Bool) : Prop where
  width : c.matrix.width = n
  bounds : c.lower.size = n ∧ c.upper.size = n
  rows : c.bound.size = c.matrix.height ∧ c.rowState.size = c.matrix.height ∧ c.rowAction.size = c.matrix.height
  offsets : c.rowOffsets.size = n + 1
  first : c.rowOffsets.getD 0 0 = 0
  next : ∀ s : Fin n,
    c.rowOffsets.getD (s + 1) 0 = c.rowOffsets.getD s 0 + if fixed s then 0 else P.actionCount s
  last : c.rowOffsets.getD n 0 = c.matrix.height
  labels : ∀ s : Fin n, fixed s = false → ∀ a : Fin (P.actionCount s),
    c.rowState[c.rowOffsets.getD s 0 + a]? = some (s : Nat) ∧
    c.rowAction[c.rowOffsets.getD s 0 + a]? = some (a : Nat)

theorem RowPlan.program_laidOut [Field K] [LinearOrder K] [FloorRing K] {P : Process n K} (plan : RowPlan P) :
    plan.program.LaidOut P plan.fixed := by
  have height : plan.program.matrix.height = plan.pairs.length := List.length_map _
  have start : plan.firstRow 0 = 0 := by
    rw [firstRow, offsets_getD _ (Nat.zero_le _)]
    rfl
  have total : plan.firstRow n = plan.pairs.length := by
    rw [firstRow, offsets_getD _ (by rw [List.length_ofFn]), List.take_of_length_le (by rw [List.length_ofFn]),
      pairs_length]
  constructor
  case width => rfl
  case bounds => simp [program]
  case rows =>
    rw [height]
    simp [program]
  case offsets => simp [program]
  case first => exact start
  case next => exact firstRow_next plan
  case last => exact total.trans height.symm
  case labels =>
    intro s free a
    exact ⟨row_place plan (fun x => (x.1 : Nat)) free a, row_place plan (fun x => (x.2 : Nat)) free a⟩

variable [Field K]

variable [LinearOrder K] [FloorRing K]

def Below (xs ys : Array (Extended K)) : Prop :=
  List.Forall₂ (fun x y => Scalar.le x y = true) xs.toList ys.toList

theorem below_map {β : Type} (f g : β → Extended K) (xs : List β) :
    Below (xs.map f).toArray (xs.map g).toArray ↔ ∀ x ∈ xs, Scalar.le (f x) (g x) = true := by
  unfold Below
  rw [List.forall₂_map_left_iff, List.forall₂_map_right_iff, List.forall₂_same]

theorem below_ofFn (f g : Fin n → Extended K) :
    Below (List.ofFn f).toArray (List.ofFn g).toArray ↔ ∀ s, Scalar.le (f s) (g s) = true := by
  rw [List.ofFn_eq_map, List.ofFn_eq_map, below_map]
  exact forall_congr' fun s => forall_prop_of_true (List.mem_finRange s)

structure StateProgram.Admits (c : StateProgram (Extended K)) (v : Fin n → K) : Prop where
  rows : ∃ products, c.matrix.applyTo? (.ofVector (exactVector v)) = some (.ofVector products) ∧
    Below products c.bound
  lower : Below c.lower (exactVector v)
  upper : Below (exactVector v) c.upper

section Plans

variable {P : Process n K}

theorem RowPlan.bounds_iff (plan : RowPlan P) (v : Fin n → K) :
    (Below plan.program.lower (exactVector v) ∧ Below (exactVector v) plan.program.upper)
      ↔ ∀ s, plan.fixed s = true → v s = 0 := by
  have vector : exactVector v = (List.ofFn fun s => Extended.finite (v s)).toArray :=
    (List.toArray_ofFn ..).symm
  rw [vector]
  unfold program
  rw [below_ofFn, below_ofFn, ← forall_and]
  refine forall_congr' fun s => ?_
  cases plan.fixed s with
  | true => simp [← le_antisymm_iff, eq_comm]
  | false => exact iff_of_true ⟨rfl, rfl⟩ nofun

variable [IsStrictOrderedRing K]

theorem RowPlan.admits_iff (plan : RowPlan P) (v : Fin n → K) : plan.program.Admits v ↔
    (∀ s, plan.fixed s = false → ∀ a : Fin (P.actionCount s), 0 ≤ plan.slack v ⟨s, a⟩) ∧
      ∀ s, plan.fixed s = true → v s = 0 := by
  have rows : (∃ products, plan.program.matrix.applyTo? (.ofVector (exactVector v)) = some (.ofVector products) ∧
      Below products plan.program.bound) ↔
      ∀ s, plan.fixed s = false → ∀ a : Fin (P.actionCount s), 0 ≤ plan.slack v ⟨s, a⟩ := by
    rw [applyTo?_exact]
    constructor
    · rintro ⟨products, known, below⟩ s free a
      obtain rfl := congrArg Tensor.cells (Option.some.inj known)
      have bound := (below_map _ _ _).mp below ⟨s, a⟩ ((mem_pairs plan ⟨s, a⟩).mpr free)
      rw [Extended.le_finite, decide_eq_true_eq] at bound
      exact sub_nonneg.mpr bound
    · intro nonneg
      refine ⟨_, rfl, (below_map _ _ _).mpr fun x listed => ?_⟩
      rw [Extended.le_finite, decide_eq_true_eq]
      exact sub_nonneg.mp (nonneg x.1 ((mem_pairs plan x).mp listed) x.2)
  rw [← rows, ← bounds_iff plan v]
  constructor
  · intro admits
    exact ⟨admits.rows, admits.lower, admits.upper⟩
  · rintro ⟨rows, lower, upper⟩
    exact ⟨rows, lower, upper⟩

end Plans

section Assembly

variable {m : Model (Extended K)} {P : Process n K} {γ : K}

theorem Model.isTerminal_known (described : m.Describes P) (s : Fin n) : ∃ b, m.isTerminal (s : Nat) = .ok b := by
  unfold isTerminal
  rw [described.actions s, Outcome.ok_bind]
  split
  · exact ⟨false, rfl⟩
  · obtain ⟨ts, known, _⟩ := described.outcomes s ⟨0, P.hasAction s⟩
    have known : m.transitions (s : Nat) 0 = .ok ts := known
    rw [known, Outcome.ok_bind]
    split
    · exact ⟨_, rfl⟩
    · exact ⟨false, rfl⟩

def Model.Fixes (m : Model (Extended K)) (o : Objective (Extended K)) (fixed : Fin n → Bool) : Prop :=
  ∀ s : Fin n, (if o.isTotal then m.isTerminal (s : Nat) else .ok false) = .ok (fixed s)

theorem Model.exists_fixes (described : m.Describes P) (o : Objective (Extended K)) :
    ∃ fixed : Fin n → Bool, m.Fixes o fixed := by
  choose ends known using Model.isTerminal_known described
  cases total : o.isTotal with
  | false => exact ⟨fun _ => false, fun s => by rw [total]; rfl⟩
  | true => exact ⟨ends, fun s => by rw [total]; exact known s⟩

variable [IsStrictOrderedRing K]

theorem StateProgram.value_worth (described : m.Describes P) {o : Objective (Extended K)}
    (discount : o.discount = .ok (.finite γ)) {fixed : Fin n → Bool} (fixes : m.Fixes o fixed) :
    StateProgram.value m (.objective o) = .ok (P.worthPlan γ fixed).program := by
  have follows : (P.worthPlan γ fixed).Follows m
      ⟨-Scalar.one, .finite γ, fun ts => (expectedReward ts).neg, o.isTotal⟩ :=
    ⟨Extended.neg_one, rfl, fun _ _ _ reads => negatedReward_exact reads, fixes⟩
  unfold StateProgram.value
  rw [show (Goal.objective o).discount = .ok (.finite γ) from discount, Outcome.ok_bind]
  exact RowPlan.collect_exact described follows

-- The inequalities say that no action beats the value of its state, whatever the probabilities are.
-- Under total reward the terminal states are fixed at zero and have no rows.
theorem StateProgram.value_inequalities (described : m.Describes P) {o : Objective (Extended K)}
    (discount : o.discount = .ok (.finite γ)) :
    ∃ c fixed, StateProgram.value m (.objective o) = .ok c ∧ m.Fixes o fixed ∧ c.LaidOut P fixed ∧
      ∀ v : Fin n → K, ∃ q : (s : Fin n) → Fin (P.actionCount s) → K,
        (∀ (s : Fin n) (a : Fin (P.actionCount s)),
          m.actionValue (.objective o) (s : Nat) (a : Nat) (Reader.ofArray (exactVector v)) = .ok (.finite (q s a))) ∧
        (c.Admits v ↔ (∀ s, fixed s = false → ∀ a, q s a ≤ v s) ∧ ∀ s, fixed s = true → v s = 0) ∧
        ∃ slacks, c.slacks (.ofVector (exactVector v)) = some (.ofVector slacks) ∧
          slacks.size = c.matrix.height ∧
          ∀ s, fixed s = false → ∀ a : Fin (P.actionCount s),
            slacks[c.rowOffsets.getD s 0 + a]? = some (.finite (v s - q s a)) := by
  obtain ⟨fixed, fixes⟩ := Model.exists_fixes described o
  refine ⟨_, fixed, value_worth described discount fixes, fixes, RowPlan.program_laidOut _, fun v => ?_⟩
  have known : (Goal.objective o).discount = .ok (.finite γ) := discount
  refine ⟨P.actionValue γ v, actionValue_exact described known v, ?_, _, RowPlan.slacks_exact _ v, ?_, ?_⟩
  · rw [RowPlan.admits_iff]
    simp only [worthPlan_slack, sub_nonneg]
    rfl
  · simp [SparseMatrix.height, RowPlan.program]
  · intro s free a
    rw [← worthPlan_slack P γ fixed v ⟨s, a⟩]
    exact RowPlan.row_place _ (fun x => Extended.finite ((P.worthPlan γ fixed).slack v x)) free a

theorem StateProgram.value_inequalities_returning : ∃ c,
    StateProgram.value (.table Process.returning.table) (.objective .total) = .ok c ∧
    c.LaidOut Process.returning ![false, true] ∧ c.Admits ![(11 : ℚ), 0] ∧ ¬c.Admits ![(10 : ℚ), 0] := by
  have described := table_describes Process.returning
  obtain ⟨c, fixed, loaded, fixes, laid, points⟩ := value_inequalities described (o := .total) rfl
  have ends : fixed = ![false, true] := by
    funext s
    have known := fixes s
    fin_cases s
    · exact (Except.ok.inj known).symm
    · exact (Except.ok.inj known).symm
  subst ends
  have point (v : Fin 2 → ℚ) : c.Admits v ↔
      (∀ s, ![false, true] s = false → ∀ a, Process.returning.actionValue 1 v s a ≤ v s) ∧
        ∀ s, ![false, true] s = true → v s = 0 := by
    obtain ⟨q, known, admits, _⟩ := points v
    have same (s a) : q s a = Process.returning.actionValue 1 v s a :=
      Extended.finite.inj (Except.ok.inj ((known s a).symm.trans (actionValue_exact described rfl v s a)))
    simpa only [same] using admits
  exact ⟨c, loaded, laid, (point _).mpr (by decide +kernel), (point _).not.mpr (by decide +kernel)⟩

end Assembly

end MarkovDecision
