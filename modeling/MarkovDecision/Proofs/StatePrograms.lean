import MarkovDecision.LinearProgram.Solve
import MarkovDecision.Proofs.FlatArrays
import MarkovDecision.Proofs.Process.Transience
import MarkovDecision.Proofs.SparseRows

namespace MarkovDecision

variable {n : Nat} {K : Type}

section Points

variable [Field K] [LinearOrder K] [FloorRing K]

structure LinearProgram.Feasible (p : LinearProgram (Extended K)) (x : Fin n → K) : Prop where
  unknowns : p.bounds.length = n
  lower : ∀ s : Fin n, ∀ l u, p.bounds[(s : Nat)]? = some (some l, u) → Scalar.le l (.finite (x s)) = true
  upper : ∀ s : Fin n, ∀ l u, p.bounds[(s : Nat)]? = some (l, some u) → Scalar.le (.finite (x s)) u = true
  rows : ∀ c ∈ p.constraints, Scalar.le (c.1.dot (exactVector x)) c.2 = true

def LinearProgram.cost (p : LinearProgram (Extended K)) (x : Fin n → K) : Extended K :=
  Scalar.sum (List.zipWith (· * ·) p.objective (exactVector x).toList)

def LinearProgram.unconstrained (p : LinearProgram (Extended K)) : LinearProgram (Extended K) :=
  { p with constraints := [] }

theorem LinearProgram.feasible_split {p : LinearProgram (Extended K)} {x : Fin n → K} :
    p.Feasible x ↔ p.unconstrained.Feasible x ∧
      ∀ c ∈ p.constraints, Scalar.le (c.1.dot (exactVector x)) c.2 = true :=
  ⟨fun inside => ⟨⟨inside.unknowns, inside.lower, inside.upper, by simp [unconstrained]⟩, inside.rows⟩,
    fun ⟨free, rows⟩ => ⟨free.unknowns, free.lower, free.upper, rows⟩⟩

structure LinearProgram.Minimal (p : LinearProgram (Extended K)) (x : Fin n → K) : Prop where
  feasible : p.Feasible x
  least : ∀ y : Fin n → K, p.Feasible y → Scalar.le (p.cost x) (p.cost y) = true

structure LinearProgram.Optimal (p : LinearProgram (Extended K)) (direction : Direction)
    (x : Fin n → K) : Prop where
  feasible : p.Feasible x
  best : ∀ y : Fin n → K, p.Feasible y →
    Scalar.le (direction.signed (p.cost x)) (direction.signed (p.cost y)) = true

end Points

-- The coefficients of a row: one for its own state, one for every next state by its probability; the
-- bound of the row, and the states whose value is zero and that have no rows.
structure RowPlan (P : Process n K) where
  own : K
  follow : K
  bound : P.Tariff
  fixed : Fin n → Bool

namespace RowPlan

variable {P : Process n K}

def pairs (plan : RowPlan P) : List (Σ s : Fin n, Fin (P.actionCount s)) :=
  (List.ofFn fun s => if plan.fixed s then [] else List.ofFn fun a => ⟨s, a⟩).flatten

def rowCount (plan : RowPlan P) (s : Fin n) : Nat := if plan.fixed s then 0 else P.actionCount s

theorem mem_pairs (plan : RowPlan P) (x : Σ s : Fin n, Fin (P.actionCount s)) :
    x ∈ plan.pairs ↔ plan.fixed x.1 = false := by
  rw [pairs, List.mem_flatten]
  constructor
  · rintro ⟨rows, listed, member⟩
    obtain ⟨s, rfl⟩ := List.mem_ofFn.mp listed
    by_cases fixed : plan.fixed s = true
    · rw [if_pos fixed] at member
      cases member
    · rw [if_neg fixed] at member
      obtain ⟨a, rfl⟩ := List.mem_ofFn.mp member
      exact Bool.eq_false_iff.mpr fixed
  · intro free
    refine ⟨_, List.mem_ofFn.mpr ⟨x.1, rfl⟩, ?_⟩
    rw [if_neg (by simp [free])]
    exact List.mem_ofFn.mpr ⟨x.2, rfl⟩

theorem pairs_map {β : Type} (plan : RowPlan P) (f : (Σ s : Fin n, Fin (P.actionCount s)) → β) :
    plan.pairs.map f
      = (List.ofFn fun s => if plan.fixed s then [] else List.ofFn fun a => f ⟨s, a⟩).flatten := by
  rw [pairs, List.map_flatten, List.map_ofFn]
  refine congrArg List.flatten (congrArg List.ofFn (funext fun s => ?_))
  rw [Function.comp_apply, apply_ite (List.map f), List.map_ofFn]
  rfl

theorem pairs_nodup (plan : RowPlan P) : plan.pairs.Nodup := by
  rw [pairs, List.nodup_flatten, List.forall_mem_ofFn_iff, List.pairwise_ofFn]
  refine ⟨fun s => ?_, fun s t apart => ?_⟩
  · split
    · exact List.nodup_nil
    · exact List.nodup_ofFn.mpr fun a b same => eq_of_heq (Sigma.mk.inj same).2
  · refine List.disjoint_left.mpr fun x here there => apart.ne ?_
    have state {t : Fin n} (member : x ∈ if plan.fixed t then [] else List.ofFn fun a => ⟨t, a⟩) : x.1 = t := by
      split at member
      · cases member
      · obtain ⟨a, rfl⟩ := List.mem_ofFn.mp member
        rfl
    exact (state here).symm.trans (state there)

theorem exists_pairs_map {β : Type} [Nonempty β] (plan : RowPlan P) {ys : List β}
    (length : ys.length = plan.pairs.length) : ∃ f, ys = plan.pairs.map f := by
  obtain ⟨default⟩ := ‹Nonempty β›
  refine ⟨fun x => ys.getD (plan.pairs.idxOf x) default, List.ext_getElem (by simp [length]) ?_⟩
  intro i _ _
  rw [List.getElem_map, plan.pairs_nodup.idxOf_getElem, List.getElem_eq_getD default]

variable [Field K]

theorem pairs_sum (plan : RowPlan P) (f : (Σ s : Fin n, Fin (P.actionCount s)) → K) :
    (plan.pairs.map f).sum = ∑ s, if plan.fixed s then 0 else ∑ a, f ⟨s, a⟩ := by
  rw [pairs_map, List.sum_flatten, List.map_ofFn, List.sum_ofFn]
  refine Finset.sum_congr rfl fun s _ => ?_
  rw [Function.comp_apply, apply_ite List.sum, List.sum_ofFn, List.sum_nil]

def entries (plan : RowPlan P) (x : Σ s : Fin n, Fin (P.actionCount s)) : List (Nat × K) :=
  ((x.1 : Nat), plan.own) :: (P.branches x.1 x.2).map fun b => ((b.next : Nat), plan.follow * b.probability)

def slack (plan : RowPlan P) (v : Fin n → K) (x : Σ s : Fin n, Fin (P.actionCount s)) : K :=
  plan.bound x.1 x.2 - (plan.own * v x.1 + plan.follow * P.mean v x.1 x.2)

theorem entries_inside (plan : RowPlan P) (x : Σ s : Fin n, Fin (P.actionCount s)) :
    ∀ e ∈ plan.entries x, e.1 < n := by
  refine List.forall_mem_cons.mpr ⟨x.1.isLt, fun e member => ?_⟩
  obtain ⟨b, _, rfl⟩ := List.mem_map.mp member
  exact b.next.isLt

theorem entries_weigh (plan : RowPlan P) (x : Σ s : Fin n, Fin (P.actionCount s)) (v : Fin n → K) :
    SparseRow.weigh (plan.entries x) (padded v) = plan.own * v x.1 + plan.follow * P.mean v x.1 x.2 := by
  have later : SparseRow.weigh
      ((P.branches x.1 x.2).map fun b => ((b.next : Nat), plan.follow * b.probability)) (padded v)
      = plan.follow * P.mean v x.1 x.2 := by
    rw [SparseRow.weigh, List.map_map, Process.mean, ← List.sum_map_mul_left]
    refine congrArg List.sum (List.map_congr_left fun b _ => ?_)
    rw [Function.comp_apply, padded_fin, mul_assoc]
  rw [entries, SparseRow.weigh_cons, later, padded_fin]

variable [LinearOrder K] [FloorRing K]

def program (plan : RowPlan P) : StateProgram (Extended K) where
  matrix := ⟨n, plan.pairs.map fun x =>
    (SparseRow.ofEntries (SparseRow.exactEntries (plan.entries x))).dropZeros⟩
  bound := (plan.pairs.map fun x => .finite (plan.bound x.1 x.2)).toArray
  lower := (List.ofFn fun s => if plan.fixed s then Scalar.zero else Scalar.negInfinity).toArray
  upper := (List.ofFn fun s => if plan.fixed s then Scalar.zero else Scalar.infinity).toArray
  rowState := (plan.pairs.map fun x => (x.1 : Nat)).toArray
  rowAction := (plan.pairs.map fun x => (x.2 : Nat)).toArray
  rowOffsets := offsets (List.ofFn plan.rowCount)

section Assembly

open StateProgram

variable {m : Model (Extended K)} {plan : RowPlan P} {rule : RowRule (Extended K)}

structure Follows (m : Model (Extended K)) (rule : RowRule (Extended K)) (plan : RowPlan P) : Prop where
  own : rule.own = .finite plan.own
  follow : rule.follow = .finite plan.follow
  bound : ∀ (s : Fin n) (a : Fin (P.actionCount s)) ts, List.Forall₂ Transition.Reads ts (P.branches s a) →
    (rule.bound ts).value = .finite (plan.bound s a)
  fixed : ∀ s : Fin n,
    (if rule.fixTerminal then m.isTerminal ((s : Nat) : Int) else .ok false) = .ok (plan.fixed s)

theorem rawRow_exact (described : m.Describes P) (follows : plan.Follows m rule)
    (x : Σ s : Fin n, Fin (P.actionCount s)) :
    ∃ bound, rawRow m rule (x.1 : Nat) (x.2 : Nat) = .ok ⟨(x.1 : Nat), (x.2 : Nat),
        (plan.entries x).map fun e => (some (e.1 : Int), .finite e.2), bound⟩ ∧
      bound.value = .finite (plan.bound x.1 x.2) := by
  obtain ⟨ts, known, reads⟩ := described.outcomes x.1 x.2
  refine ⟨rule.bound ts, ?_, follows.bound x.1 x.2 ts reads⟩
  have next : ts.map (fun t => (t.next.place?, rule.follow * t.probability.value))
      = ((P.branches x.1 x.2).map fun b => ((b.next : Nat), plan.follow * b.probability)).map
        fun e => (some (e.1 : Int), Extended.finite e.2) := by
    clear known
    generalize P.branches x.1 x.2 = bs at reads
    induction reads with
    | nil => rfl
    | cons first _ ih =>
      rw [List.map_cons, ih, first.next, first.probability, follows.follow]
      rfl
  rw [rawRow, known, Outcome.ok_bind, next, follows.own]
  rfl

theorem stateRows_exact (described : m.Describes P) (follows : plan.Follows m rule)
    {rows : (x : Σ s : Fin n, Fin (P.actionCount s)) → RawRow (Extended K)}
    (known : ∀ x, rawRow m rule (x.1 : Nat) (x.2 : Nat) = .ok (rows x)) (s : Fin n) :
    stateRows m rule (s : Nat)
      = .ok ⟨plan.fixed s, if plan.fixed s then [] else List.ofFn fun a => rows ⟨s, a⟩⟩ := by
  have positive := P.hasAction s
  have fixed := follows.fixed s
  have each : (List.range (P.actionCount s)).mapM (fun a : Nat => rawRow m rule (s : Nat) a)
      = .ok (List.ofFn fun a => rows ⟨s, a⟩) := Outcome.mapM_range fun a => known ⟨s, a⟩
  rw [stateRows, described.actions s, Outcome.ok_bind, if_neg (by simp; omega), Int.toNat_natCast, each]
  cases checked : rule.fixTerminal with
  | false =>
    rw [checked] at fixed
    rw [← Except.ok.inj fixed]
    rfl
  | true =>
    rw [checked, if_pos rfl] at fixed
    rw [if_pos rfl, fixed]
    cases plan.fixed s <;> rfl

variable [IsStrictOrderedRing K]

theorem collect_exact (described : m.Describes P) (follows : plan.Follows m rule) :
    collect m rule = .ok plan.program := by
  choose bound rows bounds using rawRow_exact described follows
  let row (x : Σ s : Fin n, Fin (P.actionCount s)) : RawRow (Extended K) :=
    ⟨(x.1 : Nat), (x.2 : Nat), (plan.entries x).map fun e => (some (e.1 : Int), .finite e.2), bound x⟩
  let state (s : Fin n) : StateRows (Extended K) :=
    ⟨plan.fixed s, if plan.fixed s then [] else List.ofFn fun a => row ⟨s, a⟩⟩
  have states : (List.range m.stateCount).mapM (fun s : Nat => stateRows m rule s)
      = .ok (List.ofFn state) := by
    rw [described.states]
    exact Outcome.mapM_range (stateRows_exact described follows rows)
  have listed : (List.ofFn state).flatMap (·.rows) = plan.pairs.map row := by
    rw [pairs_map, List.flatMap_def, List.map_ofFn]
    rfl
  have numbers : (plan.pairs.map row).mapM (fun r => r.bound.value?)
      = some (plan.pairs.map fun x => .finite (plan.bound x.1 x.2)) := by
    rw [List.mapM_map]
    exact Outcome.mapM_some fun x _ => Quantity.value?_finite (bounds x)
  have matrix : SparseMatrix.ofEntries? n ((plan.pairs.map row).map fun r => r.entries)
      = some ⟨n, plan.pairs.map fun x => SparseRow.ofEntries (SparseRow.exactEntries (plan.entries x))⟩ := by
    rw [SparseMatrix.ofEntries?, List.map_map, List.mapM_map]
    exact congrArg (Option.map _)
      (Outcome.mapM_some fun x _ => SparseMatrix.rowOf?_exact (entries_inside plan x))
  have counts : (List.ofFn state).map (fun s => s.rows.length) = List.ofFn plan.rowCount := by
    rw [List.map_ofFn]
    refine congrArg List.ofFn (funext fun s => ?_)
    change (if plan.fixed s then [] else List.ofFn fun a => row ⟨s, a⟩).length = plan.rowCount s
    rw [rowCount, apply_ite List.length, List.length_ofFn]
    rfl
  rw [collect, states, Outcome.ok_bind]
  dsimp only
  rw [listed, numbers, Outcome.ofOption_some, Outcome.ok_bind, described.states, matrix,
    Outcome.ofOption_some, Outcome.ok_bind, Outcome.pure_eq, counts]
  simp only [program, SparseMatrix.dropZeros, List.map_map, List.map_ofFn, Function.comp_def]
  rfl

end Assembly

section Points

variable {plan : RowPlan P}

theorem program_constraints (plan : RowPlan P) : plan.program.program.constraints
    = plan.pairs.map fun x => ((SparseRow.ofEntries (SparseRow.exactEntries (plan.entries x))).dropZeros,
      .finite (plan.bound x.1 x.2)) := by
  change (plan.pairs.map _).zip (plan.pairs.map _) = _
  rw [List.zip_map']

theorem program_bounds (plan : RowPlan P) : plan.program.program.bounds
    = List.ofFn fun s => if plan.fixed s then (some (.finite 0), some (.finite 0)) else (none, none) := by
  change pairBounds (List.ofFn fun s => if plan.fixed s then Scalar.zero else Scalar.negInfinity)
    (List.ofFn fun s => if plan.fixed s then Scalar.zero else Scalar.infinity) = _
  have zero : finiteBound (Scalar.zero : Extended K) = some (.finite 0) := by
    simp [finiteBound, isFinite]
  refine List.ext_getElem (by simp [pairBounds]) fun i _ _ => ?_
  simp only [pairBounds, List.getElem_map, List.getElem_zip, List.getElem_ofFn]
  split
  · rw [zero]
  · rfl

theorem program_cost (plan : RowPlan P) (v : Fin n → K) :
    plan.program.program.cost v = .finite (∑ s, v s) := by
  have ones : List.zipWith (· * ·) (List.replicate n (Scalar.one : Extended K)) (exactVector v).toList
      = (List.ofFn v).map Extended.finite := by
    rw [exactVector_toList]
    refine List.ext_getElem (by simp) fun i _ _ => ?_
    simp
  change Scalar.sum (List.zipWith (· * ·) (List.replicate (List.ofFn _).toArray.size _) _) = _
  rw [List.size_toArray, List.length_ofFn, ones, Extended.sum_finite, List.sum_ofFn]

theorem row_dot (plan : RowPlan P) (x : Σ s : Fin n, Fin (P.actionCount s)) (v : Fin n → K) :
    (SparseRow.ofEntries (SparseRow.exactEntries (plan.entries x))).dropZeros.dot (exactVector v)
      = .finite (plan.own * v x.1 + plan.follow * P.mean v x.1 x.2) := by
  obtain ⟨es, merged⟩ := SparseRow.ofEntries_holds (plan.entries x)
  obtain ⟨fs, kept⟩ := SparseRow.dropZeros_holds merged
  rw [SparseRow.dot_exact kept (entries_inside plan x), entries_weigh]

theorem unconstrained_iff (plan : RowPlan P) (v : Fin n → K) :
    plan.program.program.unconstrained.Feasible v ↔ ∀ s, plan.fixed s = true → v s = 0 := by
  have bounds (s : Fin n) : plan.program.program.unconstrained.bounds[(s : Nat)]?
      = some (if plan.fixed s then (some (.finite 0), some (.finite 0)) else (none, none)) := by
    change plan.program.program.bounds[(s : Nat)]? = _
    rw [program_bounds, List.getElem?_ofFn, dif_pos s.isLt]
  constructor
  · intro feasible s fixed
    have known := bounds s
    rw [if_pos fixed] at known
    have above := feasible.lower s _ _ known
    have below := feasible.upper s _ _ known
    rw [Extended.le_finite, decide_eq_true_eq] at above below
    exact le_antisymm below above
  · intro zero
    -- a bound is that of a fixed state, whose value is zero
    have bounded {s : Fin n} {l u : Option (Extended K)}
        (known : plan.program.program.unconstrained.bounds[(s : Nat)]? = some (l, u)) :
        (l = none ∧ u = none) ∨ (l = some (.finite 0) ∧ u = some (.finite 0) ∧ v s = 0) := by
      rw [bounds s] at known
      cases fixed : plan.fixed s with
      | true =>
        rw [fixed] at known
        cases known
        exact Or.inr ⟨rfl, rfl, zero s fixed⟩
      | false =>
        rw [fixed] at known
        cases known
        exact Or.inl ⟨rfl, rfl⟩
    refine ⟨(congrArg List.length plan.program_bounds).trans List.length_ofFn, fun s l u known => ?_,
      fun s l u known => ?_, by simp [LinearProgram.unconstrained]⟩
    · rcases bounded known with ⟨none, _⟩ | ⟨some, _, value⟩
      · cases none
      · rw [Option.some.inj some, value, Extended.le_finite, decide_eq_true_eq]
    · rcases bounded known with ⟨_, none⟩ | ⟨_, some, value⟩
      · cases none
      · rw [Option.some.inj some, value, Extended.le_finite, decide_eq_true_eq]

variable [IsStrictOrderedRing K]

theorem feasible_iff (plan : RowPlan P) (v : Fin n → K) : plan.program.program.Feasible v ↔
    (∀ s, plan.fixed s = true → v s = 0) ∧
      ∀ s, plan.fixed s = false → ∀ a : Fin (P.actionCount s), 0 ≤ plan.slack v ⟨s, a⟩ := by
  rw [LinearProgram.feasible_split, unconstrained_iff, program_constraints, List.forall_mem_map]
  refine and_congr_right fun _ => ⟨fun rows s free a => ?_, fun rows x listed => ?_⟩
  · have bound := rows ⟨s, a⟩ ((mem_pairs plan ⟨s, a⟩).mpr free)
    rw [row_dot, Extended.le_finite, decide_eq_true_eq] at bound
    exact sub_nonneg.mpr bound
  · rw [row_dot, Extended.le_finite, decide_eq_true_eq]
    exact sub_nonneg.mp (rows x.1 ((mem_pairs plan x).mp listed) x.2)

theorem optimal_iff (plan : RowPlan P) (direction : Direction) (v : Fin n → K) :
    plan.program.program.Optimal direction v ↔ plan.program.program.Feasible v ∧
      ∀ u : Fin n → K, plan.program.program.Feasible u →
        direction.signed (∑ s, v s) ≤ direction.signed (∑ s, u s) := by
  have compared (u : Fin n → K) : Scalar.le (direction.signed (plan.program.program.cost v))
      (direction.signed (plan.program.program.cost u)) = true ↔
      direction.signed (∑ s, v s) ≤ direction.signed (∑ s, u s) := by
    rw [program_cost, program_cost]
    cases direction <;> simp [Direction.signed]
  constructor
  · intro optimal
    exact ⟨optimal.feasible, fun u inside => (compared u).mp (optimal.best u inside)⟩
  · rintro ⟨inside, best⟩
    exact ⟨inside, fun u other => (compared u).mpr (best u other)⟩

end Points

end RowPlan

end MarkovDecision
