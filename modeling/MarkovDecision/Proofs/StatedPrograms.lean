import MarkovDecision.Proofs.DenseRows
import MarkovDecision.Proofs.DirectedPrograms

namespace MarkovDecision

variable {n : Nat} {K : Type}

abbrev ConstraintBlock (α : Type) := List (SparseRow α × α)

structure StatedProgram (n : Nat) (K : Type) where
  lower : Option (Fin n → Option K)
  upper : Option (Fin n → Option K)
  blocks : List (ConstraintBlock (Extended K))
  objective : Fin n → K
  direction : Direction

namespace StatedProgram

def program (s : StatedProgram n K) : LinearProgram (Extended K) where
  objective := (exactVector s.objective).toList
  bounds := List.ofFn fun i => ((s.lower.bind (· i)).map .finite, (s.upper.bind (· i)).map .finite)
  constraints := s.blocks.flatten

def side (given : Option (Fin n → Option K)) (missing : Extended K) : Option (Tensor (Extended K)) :=
  given.map fun bound => .ofVector (Array.ofFn fun i => (bound i).elim missing .finite)

def blockOf {α : Type} (n : Nat) (b : ConstraintBlock α) : SparseMatrix α × Tensor α :=
  (⟨n, b.map (·.1)⟩, .ofVector (b.map (·.2)).toArray)

def loaded (s : StatedProgram n K) : DeferredProgram (Extended K) where
  unknowns := n
  bounds := some s.program.bounds
  blocks := s.blocks.map (blockOf n)
  objective := some (.ofVector (exactVector s.objective))
  direction := s.direction
  matrix := none
  rhs := none
  outcome := none

def stacked (s : StatedProgram n K) : Option (ConstraintBlock (Extended K)) :=
  if s.blocks.isEmpty then none else some s.blocks.flatten

theorem boundList_side {capacity : Nat} {given : Option (Fin n → Option K)} (missing : Extended K)
    (room : given = none → Tensor.fits capacity [n] = true) :
    boundList capacity n (side given missing) missing
      = .ok (List.ofFn fun i => (given.bind (· i)).elim missing .finite) := by
  cases given with
  | none =>
    rw [side, Option.map_none, boundList, if_pos (by simp [room rfl])]
    simp
  | some bound =>
    change Except.ok (Array.ofFn _).toList = _
    rw [Array.toList_ofFn]
    rfl

def whole (s : StatedProgram n K) : StatedProgram n K :=
  { s with blocks := if s.blocks.flatten.isEmpty then [] else [s.blocks.flatten] }

theorem whole_rows (s : StatedProgram n K) : s.whole.blocks.flatten = s.blocks.flatten := by
  rw [whole]
  split
  · next none => rw [List.isEmpty_iff.mp none, List.flatten_nil]
  · exact List.flatten_singleton

theorem ofProgram_eq (s : StatedProgram n K) :
    DeferredProgram.ofProgram s.program s.direction = s.whole.loaded.prepare.1 := by
  have count : s.program.bounds.length = n := List.length_ofFn
  have objective : s.program.objective.toArray = exactVector s.objective := Array.toArray_toList
  rw [DeferredProgram.ofProgram, count, objective]
  refine congrArg (fun p : DeferredProgram (Extended K) => p.prepare.1) ?_
  rw [loaded, whole]
  change DeferredProgram.setObjective (if s.blocks.flatten.isEmpty then _ else _) _ _ = _
  split <;> rfl

section Blocks

variable {α : Type}

theorem foldl_addConstraints (blocks : List (SparseMatrix α × Tensor α)) (p : DeferredProgram α) :
    blocks.foldl (fun p b => p.addConstraints b.1 b.2) p = { p with blocks := p.blocks ++ blocks } := by
  induction blocks generalizing p with
  | nil =>
    rw [List.append_nil]
    rfl
  | cons b rest ih =>
    rw [List.foldl_cons, ih, DeferredProgram.addConstraints, List.append_assoc]
    rfl

theorem prepare_blocks {blocks : List (ConstraintBlock α)} {p : DeferredProgram α}
    (loaded : p.blocks = blocks.map (blockOf n)) (nonempty : blocks ≠ []) :
    p.prepare = ({ p with
      matrix := some ⟨n, blocks.flatten.map (·.1)⟩
      rhs := some (blocks.flatten.map (·.2)) }, .ok ()) := by
  have matrix : DeferredProgram.stacked? (p.blocks.map (·.1)) = some ⟨n, blocks.flatten.map (·.1)⟩ := by
    obtain ⟨b, rest, rfl⟩ := List.exists_cons_of_ne_nil nonempty
    rw [loaded, List.map_map, List.map_cons, DeferredProgram.stacked?, if_pos (by simp [blockOf]),
      ← List.map_cons, List.flatMap_map, List.flatMap_def, List.map_flatten]
    rfl
  have vectors : p.blocks.mapM (fun b => b.2.vector?) = some (blocks.map fun b => (b.map (·.2)).toArray) := by
    rw [loaded, List.mapM_map]
    exact Outcome.mapM_some fun _ _ => rfl
  have bounds : (blocks.map fun b => (b.map (·.2)).toArray).flatMap Array.toList = blocks.flatten.map (·.2) := by
    rw [List.flatMap_map, List.flatMap_def, List.map_flatten]
  have present : ¬ p.blocks.isEmpty = true := by simpa [loaded] using nonempty
  rw [DeferredProgram.prepare, if_neg present, matrix]
  dsimp only
  rw [vectors]
  dsimp only
  rw [bounds]

end Blocks

end StatedProgram

variable [Field K] [LinearOrder K] [FloorRing K]

structure ProgramAnswers (α : Type) where
  size : Int × Nat
  status : Outcome α String
  value : Outcome α α
  solution : Outcome α (List α)
  multipliers : Outcome α (List α)

def DeferredProgram.answers {α : Type} [Scalar α] (p : DeferredProgram α) : ProgramAnswers α where
  size := p.size
  status := p.status
  value := p.value
  solution := p.solution
  multipliers := p.multipliers

def LinearProgram.answersAt (p : LinearProgram (Extended K)) (x : Fin n → K) (ys : List K) :
    ProgramAnswers (Extended K) where
  size := (p.bounds.length, p.constraints.length)
  status := .ok ProgramOutcome.optimalName
  value := .ok (p.cost x)
  solution := .ok (exactVector x).toList
  multipliers := .ok (ys.map .finite)

namespace SolverCall

def program (call : SolverCall (Extended K)) : LinearProgram (Extended K) where
  objective := call.objective.cells.toList
  bounds := (boundsFor? call.objective.cells.size call.bounds).getD []
  constraints := ((call.matrix.map SparseMatrix.rows).getD []).zip (call.rhs.getD [])

-- The routine finds a minimum, and multipliers that go with it.
structure Solved (call : SolverCall (Extended K)) (routine : SolverRoutine (Extended K)) (x : Fin n → K)
    (ys : List K) : Prop where
  answer : routine call
    = .ok (.optimal (exactVector x).toList (call.program.cost x) (ys.map .finite))
  minimal : call.program.Minimal x
  multipliers : call.program.ValidMultipliers .minimise x ys

theorem boundsFor?_given {α : Type} [Scalar α] {count : Nat} {bs : List (Option α × Option α)}
    (length : bs.length = count) : boundsFor? count (some bs) = some bs := by
  subst length
  cases bs with
  | nil => rfl
  | cons b rest => exact if_pos (beq_self_eq_true _)

end SolverCall

def SolverRoutine.SkipsEmpty {α : Type} (routine : SolverRoutine α) : Prop :=
  ∀ (objective : Tensor α) (bounds : Option (List (Option α × Option α))),
    routine ⟨objective, some ⟨objective.cells.size, []⟩, some [], bounds⟩ = routine ⟨objective, none, none, bounds⟩

theorem SolverCall.checked_skipsEmpty {α : Type} [Scalar α] (settings : BackendSettings) (solver : ProgramSolver α) :
    (checked settings solver).SkipsEmpty := by
  intro objective bounds
  have same : program? ⟨objective, some ⟨objective.cells.size, []⟩, some [], bounds⟩
      = program? ⟨objective, none, none, bounds⟩ := by
    simp only [program?]
    cases known : squeezed? objective with
    | none => rfl
    | some xs =>
      have size : objective.cells.size = xs.length := by
        simp only [squeezed?, Option.ite_none_right_eq_some, Option.some.injEq] at known
        rw [← known.2, Array.length_toList]
      rw [size]
      rfl
  rw [checked, checked, same]

def ConstraintBlock.ofVectors (rows : List ((Fin n → K) × K)) : ConstraintBlock (Extended K) :=
  rows.map fun r => (SparseRow.ofVector r.1, .finite r.2)

namespace StatedProgram

theorem sparseOf_block (rows : List ((Fin n → K) × K)) :
    sparseOf (.ofRows n ((rows.map (·.1)).map exactVector).toArray)
      = .ok (blockOf n (ConstraintBlock.ofVectors rows)).1 := by
  rw [sparseOf_ofRows, blockOf, ConstraintBlock.ofVectors, List.map_map, List.map_map]
  rfl

def run (s : StatedProgram n K) (routine : SolverRoutine (Extended K)) (capacity : Nat) :
    Outcome (Extended K) (DeferredProgram (Extended K)) := do
  let start ← DeferredProgram.empty.setUpVariables capacity n (side s.lower Scalar.negInfinity) (side s.upper Scalar.infinity)
  let loaded := (s.blocks.map (blockOf n)).foldl (fun p b => p.addConstraints b.1 b.2) start
  let (prepared, done) := (loaded.setObjective (.ofVector (exactVector s.objective)) s.direction).prepare
  done
  prepared.optimize routine

def call (s : StatedProgram n K) : SolverCall (Extended K) where
  objective := (Tensor.ofVector (exactVector s.objective)).map s.direction.signed
  matrix := s.stacked.map fun rows => ⟨n, rows.map (·.1)⟩
  rhs := s.stacked.map fun rows => rows.map (·.2)
  bounds := some s.program.bounds

def finished (s : StatedProgram n K) (outcome : ProgramOutcome (Extended K)) :
    DeferredProgram (Extended K) :=
  { s.loaded with matrix := s.call.matrix, rhs := s.call.rhs, outcome := some outcome }

theorem program_feasible {s : StatedProgram n K} {x : Fin n → K} : s.program.Feasible x ↔
    (∀ i l, s.lower.bind (· i) = some l → l ≤ x i) ∧ (∀ i u, s.upper.bind (· i) = some u → x i ≤ u) ∧
      ∀ c ∈ s.blocks.flatten, Scalar.le (c.1.dot (exactVector x)) c.2 = true := by
  have bounds (i : Fin n) : s.program.bounds[(i : Nat)]?
      = some ((s.lower.bind (· i)).map .finite, (s.upper.bind (· i)).map .finite) := by
    rw [program, List.getElem?_ofFn, dif_pos i.isLt]
  constructor
  · intro inside
    refine ⟨fun i l given => ?_, fun i u given => ?_, inside.rows⟩
    · have above := inside.lower i _ _ ((bounds i).trans (by rw [given, Option.map_some]))
      rwa [Extended.le_finite, decide_eq_true_eq] at above
    · have below := inside.upper i _ _ ((bounds i).trans (by rw [given, Option.map_some]))
      rwa [Extended.le_finite, decide_eq_true_eq] at below
  · rintro ⟨lower, upper, rows⟩
    refine ⟨List.length_ofFn, fun i l u known => ?_, fun i l u known => ?_, rows⟩
    · rw [bounds i, Option.some.injEq, Prod.mk.injEq, Option.map_eq_some_iff] at known
      obtain ⟨⟨k, given, rfl⟩, -⟩ := known
      rw [Extended.le_finite, decide_eq_true_eq]
      exact lower i k given
    · rw [bounds i, Option.some.injEq, Prod.mk.injEq, Option.map_eq_some_iff] at known
      obtain ⟨-, ⟨k, given, rfl⟩⟩ := known
      rw [Extended.le_finite, decide_eq_true_eq]
      exact upper i k given

theorem program_cost (s : StatedProgram n K) (x : Fin n → K) :
    s.program.cost x = .finite (∑ i, s.objective i * x i) := by
  have products : List.zipWith (· * ·) (exactVector s.objective).toList (exactVector x).toList
      = (List.ofFn fun i => s.objective i * x i).map Extended.finite := by
    rw [exactVector_toList, exactVector_toList]
    refine List.ext_getElem (by simp) fun i _ _ => ?_
    simp
  rw [LinearProgram.cost, program, products, Extended.sum_finite, List.sum_ofFn]

section Run

variable {s : StatedProgram n K} {routine : SolverRoutine (Extended K)} {capacity : Nat}

theorem finiteBound_elim (bound : Option K) (negative : Bool) :
    finiteBound (bound.elim (.infinite negative) .finite) = bound.map Extended.finite := by
  cases bound with
  | none => cases negative <;> rfl
  | some x => exact if_pos (by simp [isFinite])

theorem pairBounds_sides (s : StatedProgram n K) :
    pairBounds (List.ofFn fun i => (s.lower.bind (· i)).elim Scalar.negInfinity .finite)
      (List.ofFn fun i => (s.upper.bind (· i)).elim Scalar.infinity .finite) = s.program.bounds := by
  refine List.ext_getElem (by simp [pairBounds, program]) fun i _ _ => ?_
  simp only [pairBounds, program, List.getElem_map, List.getElem_zip, List.getElem_ofFn,
    Extended.negInfinity_eq, Extended.infinity_eq, finiteBound_elim]

theorem setUp_sides (s : StatedProgram n K)
    (room : s.lower = none ∨ s.upper = none → Tensor.fits capacity [n] = true) :
    DeferredProgram.empty.setUpVariables capacity n (side s.lower Scalar.negInfinity) (side s.upper Scalar.infinity)
      = .ok { DeferredProgram.empty with unknowns := n, bounds := some s.program.bounds } := by
  rw [DeferredProgram.setUpVariables, boundList_side _ fun absent => room (Or.inl absent), Outcome.ok_bind,
    boundList_side _ fun absent => room (Or.inr absent), Outcome.ok_bind, pairBounds_sides]
  rfl

theorem call_cases (s : StatedProgram n K) : (s.blocks = [] ∧ s.call.matrix = none ∧ s.call.rhs = none) ∨
    (s.blocks ≠ [] ∧ s.call.matrix = some ⟨n, s.blocks.flatten.map (·.1)⟩ ∧
      s.call.rhs = some (s.blocks.flatten.map (·.2))) := by
  obtain absent | present := eq_or_ne s.blocks []
  · have stacked : s.stacked = none := if_pos (List.isEmpty_iff.mpr absent)
    exact Or.inl ⟨absent, congrArg (Option.map _) stacked, congrArg (Option.map _) stacked⟩
  · have stacked : s.stacked = some s.blocks.flatten := if_neg (by simpa using present)
    exact Or.inr ⟨present, congrArg (Option.map _) stacked, congrArg (Option.map _) stacked⟩

theorem loaded_prepare (s : StatedProgram n K) :
    s.loaded.prepare = ({ s.loaded with matrix := s.call.matrix, rhs := s.call.rhs }, .ok ()) := by
  obtain ⟨absent, matrix, rhs⟩ | ⟨present, matrix, rhs⟩ := s.call_cases
  · rw [matrix, rhs]
    exact if_pos (by simp [loaded, absent])
  · rw [matrix, rhs]
    exact prepare_blocks (p := s.loaded) rfl present

theorem loaded_optimize (s : StatedProgram n K) (routine : SolverRoutine (Extended K)) :
    s.loaded.prepare.1.optimize routine = (routine s.call).map s.finished := by
  rw [loaded_prepare]
  change (routine s.call >>= fun outcome => Except.ok (s.finished outcome)) = _
  cases routine s.call <;> rfl

theorem run_eq (s : StatedProgram n K) (routine : SolverRoutine (Extended K))
    (room : s.lower = none ∨ s.upper = none → Tensor.fits capacity [n] = true) :
    s.run routine capacity = (routine s.call).map s.finished := by
  have steps : (s.blocks.map (blockOf n)).foldl (fun p b => p.addConstraints b.1 b.2)
      { DeferredProgram.empty with unknowns := n, bounds := some s.program.bounds }
      = { s.loaded with objective := none, direction := .minimise } := foldl_addConstraints _ _
  rw [← loaded_optimize, run, setUp_sides s room, Outcome.ok_bind]
  dsimp only
  rw [steps]
  change (do
    s.loaded.prepare.2
    s.loaded.prepare.1.optimize routine) = _
  rw [loaded_prepare]
  rfl

theorem run_crowded (s : StatedProgram n K) (routine : SolverRoutine (Extended K))
    (absent : s.lower = none ∨ s.upper = none) (crowded : Tensor.fits capacity [n] = false) :
    s.run routine capacity = .error .invalidInput := by
  have refused (missing : Extended K) : boundList capacity n (side (n := n) none missing) missing = .error .invalidInput :=
    if_neg (by simp [crowded])
  rw [run, DeferredProgram.setUpVariables]
  obtain lower | upper := absent
  · rw [lower, refused]
    rfl
  · cases given : s.lower with
    | none =>
      rw [refused]
      rfl
    | some bound =>
      rw [boundList_side _ (by simp), Outcome.ok_bind, upper, refused]
      rfl

theorem call_size (s : StatedProgram n K) : s.call.objective.cells.size = n := by
  simp [call, Tensor.ofVector, Tensor.map]

theorem call_rows (s : StatedProgram n K) :
    (s.call.matrix.map SparseMatrix.rows).getD [] = s.blocks.flatten.map (·.1) ∧
      s.call.rhs.getD [] = s.blocks.flatten.map (·.2) := by
  obtain ⟨absent, matrix, rhs⟩ | ⟨-, matrix, rhs⟩ := s.call_cases
  · rw [matrix, rhs, absent]
    exact ⟨rfl, rfl⟩
  · rw [matrix, rhs]
    exact ⟨rfl, rfl⟩

theorem call_bounds (s : StatedProgram n K) :
    SolverCall.boundsFor? n s.call.bounds = some s.program.bounds :=
  SolverCall.boundsFor?_given List.length_ofFn

theorem call_program (s : StatedProgram n K) : s.call.program = s.program.towards s.direction := by
  have objective : s.call.objective.cells.toList = s.program.objective.map s.direction.signed := Array.toList_map
  rw [SolverCall.program, s.call_rows.1, s.call_rows.2, s.call_size, s.call_bounds, objective, List.zip_map']
  simp only [Prod.eta, List.map_id']
  rfl

theorem routine_call (skips : routine.SkipsEmpty) (s : StatedProgram n K) :
    routine s.call = routine { s.call with
      matrix := some ⟨n, s.blocks.flatten.map (·.1)⟩
      rhs := some (s.blocks.flatten.map (·.2)) } := by
  obtain ⟨absent, matrix, rhs⟩ | ⟨-, matrix, rhs⟩ := s.call_cases
  · have known := skips s.call.objective s.call.bounds
    rw [s.call_size, ← matrix, ← rhs] at known
    rw [absent]
    exact known.symm
  · rw [← matrix, ← rhs]

-- What is found out about one way to divide the rows holds of every other.
theorem solved_regrouped (skips : routine.SkipsEmpty) {x : Fin n → K} {ys : List K}
    (solved : s.call.Solved routine x ys) {blocks : List (ConstraintBlock (Extended K))}
    (rows : blocks.flatten = s.blocks.flatten) : ({ s with blocks }.call).Solved routine x ys := by
  have meant : { s with blocks }.program = s.program := by rw [program, program, rows]
  have same : { s with blocks }.call.program = s.call.program := by rw [call_program, call_program, meant]
  refine ⟨?_, same ▸ solved.minimal, same ▸ solved.multipliers⟩
  rw [same, ← solved.answer, routine_call skips, routine_call skips s]
  dsimp only
  rw [rows]
  simp only [call, meant]

theorem checked_call {settings : BackendSettings} {solver : ProgramSolver (Extended K)} (unknowns : 0 < n)
    (rows : ∀ c ∈ s.blocks.flatten, isFinite c.2 = true ∧ ∀ e ∈ c.1, isFinite e.2 = true)
    (accepted : SolverCall.isMethod settings.method = true ∧ SolverCall.isTolerance settings.feasibility = true ∧
      SolverCall.isTolerance settings.optimality = true) :
    SolverCall.checked settings solver s.call = .ok (solver s.call.program) := by
  have objective : SolverCall.squeezed? s.call.objective = some s.call.objective.cells.toList := by
    refine if_pos ((List.length_filter_le _ _).trans ?_)
    simp [call, Tensor.ofVector, Tensor.map]
  have finite : s.call.objective.cells.toList.all isFinite = true := by
    simp [call, Tensor.ofVector, Tensor.map, exactVector_toList, Extended.signed_finite, isFinite]
  have width : (s.call.matrix.map SparseMatrix.width).getD n = n := by
    obtain ⟨-, matrix, -⟩ | ⟨-, matrix, -⟩ := s.call_cases <;> rw [matrix] <;> rfl
  have length : s.call.objective.cells.toList.length = s.call.objective.cells.size := Array.length_toList
  have nonempty : s.call.objective.cells.toList.isEmpty = false := by
    rw [List.isEmpty_eq_false_iff, ← List.length_pos_iff, length, s.call_size]
    exact unknowns
  have aligned : (s.blocks.flatten.map (·.1)).length = (s.blocks.flatten.map (·.2)).length := by
    rw [List.length_map, List.length_map]
  have rhs : (s.blocks.flatten.map (·.2)).all isFinite = true := by
    rw [List.all_map, List.all_eq_true]
    exact fun c member => (rows c member).1
  have entries : (s.blocks.flatten.map (·.1)).all (fun row => row.all fun e => isFinite e.2) = true := by
    rw [List.all_map, List.all_eq_true]
    exact fun c member => List.all_eq_true.mpr (rows c member).2
  have program : s.call.program? = some s.call.program := by
    simp only [SolverCall.program?, SolverCall.program, objective, length, s.call_size, s.call_bounds, s.call_rows.1,
      s.call_rows.2, width, nonempty, finite, aligned, rhs, entries, Option.bind_eq_bind, Option.bind_some,
      Option.getD_some, Bool.not_false, Bool.and_self, beq_self_eq_true, guard_true]
    rfl
  rw [SolverCall.checked, accepted.1, accepted.2.1, accepted.2.2, program]
  rfl

variable [IsStrictOrderedRing K]

-- A maximum is found as the opposite of a minimum, and everything about it is turned back.
theorem finished_answers {x : Fin n → K} {ys : List K} (length : ys.length = s.blocks.flatten.length) :
    (s.finished (.optimal (exactVector x).toList (s.call.program.cost x) (ys.map .finite))).answers
      = s.program.answersAt x (ys.map s.direction.signed) := by
  have size : (s.call.matrix.map SparseMatrix.height).getD 0 = s.blocks.flatten.length := by
    obtain ⟨absent, matrix, -⟩ | ⟨-, matrix, -⟩ := s.call_cases
    · rw [matrix, absent]
      rfl
    · rw [matrix]
      exact List.length_map _
  have value : s.direction.signed (s.call.program.cost x) = s.program.cost x := by
    rw [call_program, LinearProgram.towards_cost, Extended.signed_signed]
  have turned : (ys.map Extended.finite).map s.direction.signed
      = (ys.map s.direction.signed).map Extended.finite := by
    rw [List.map_map, List.map_map]
    exact List.map_congr_left fun y _ => Extended.signed_finite s.direction y
  have multipliers : (s.finished (.optimal (exactVector x).toList (s.call.program.cost x)
      (ys.map .finite))).multipliers = .ok ((ys.map s.direction.signed).map .finite) := by
    obtain ⟨absent, matrix, -⟩ | ⟨-, matrix, -⟩ := s.call_cases
    · have none : ys = [] := List.eq_nil_of_length_eq_zero (by simpa [absent] using length)
      rw [DeferredProgram.multipliers, finished, matrix, none]
      rfl
    · rw [DeferredProgram.multipliers, finished, matrix, ← turned]
      rfl
  have unknowns : s.program.bounds.length = n := List.length_ofFn
  rw [DeferredProgram.answers, multipliers, LinearProgram.answersAt, unknowns]
  simp only [DeferredProgram.size, DeferredProgram.value, finished, loaded, size, value]
  rfl

theorem finished_solved {x : Fin n → K} {ys : List K} (solved : s.call.Solved routine x ys) :
    ((routine s.call).map s.finished).map DeferredProgram.answers
      = .ok (s.program.answersAt x (ys.map s.direction.signed)) := by
  have length : ys.length = s.blocks.flatten.length := by
    rw [solved.multipliers.length, call_program]
    rfl
  rw [solved.answer, Outcome.map_ok, Outcome.map_ok, finished_answers length]

theorem ofProgram_solved (skips : routine.SkipsEmpty) {x : Fin n → K} {ys : List K}
    (solved : s.call.Solved routine x ys) :
    ((DeferredProgram.ofProgram s.program s.direction).optimize routine).map DeferredProgram.answers
      = .ok (s.program.answersAt x (ys.map s.direction.signed)) := by
  have answered := finished_solved (solved_regrouped skips solved s.whole_rows)
  rw [ofProgram_eq, loaded_optimize]
  exact answered.trans (by rw [program, program, s.whole_rows])

-- A program that is stated step by step is solved as a whole: what the steps answer is an optimum of the
-- objective in its direction, its value, and valid multipliers of all rows in the order of their addition.
theorem stated_optimum (s : StatedProgram n K) {routine : SolverRoutine (Extended K)} {x : Fin n → K}
    {ys : List K} (room : s.lower = none ∨ s.upper = none → Tensor.fits capacity [n] = true)
    (skips : routine.SkipsEmpty) (solved : s.call.Solved routine x ys) :
    ∃ zs : List K, s.program.Optimal s.direction x ∧ s.program.ValidMultipliers s.direction x zs ∧
      (s.run routine capacity).map DeferredProgram.answers = .ok (s.program.answersAt x zs) ∧
      ∀ blocks : List (ConstraintBlock (Extended K)), blocks.flatten = s.blocks.flatten →
        ({ s with blocks }.run routine capacity).map DeferredProgram.answers
          = (s.run routine capacity).map DeferredProgram.answers := by
  have minimal := solved.minimal
  have valid := solved.multipliers
  rw [call_program] at minimal valid
  refine ⟨ys.map s.direction.signed, LinearProgram.towards_minimal.mp minimal,
    LinearProgram.towards_multipliers valid, ?_, fun blocks rows => ?_⟩
  · rw [run_eq s routine room, finished_solved solved]
  · have meant : { s with blocks }.program = s.program := by rw [program, program, rows]
    rw [run_eq s routine room, run_eq { s with blocks } routine room, finished_solved solved,
      finished_solved (solved_regrouped skips solved rows), meant]

end Run

section Allotted

def allotted : StatedProgram 2 ℚ where
  lower := some ![some 0, none]
  upper := some ![some 3, none]
  blocks := [.ofVectors [(![1, 1], 4), (![1, 0], 5)], .ofVectors [(![0, 1], 2)]]
  objective := ![1, 2]
  direction := .maximise

def allottedRoutine : SolverRoutine (Extended ℚ) :=
  SolverCall.checked ⟨.null, .text "highs", .null, .null, .null, none⟩ fun _ =>
    .optimal (exactVector ![2, 2]).toList (.finite (-6)) ([-1, 0, -1].map .finite)

theorem allotted_solved : allotted.call.Solved allottedRoutine ![2, 2] [-1, 0, -1] := by
  have value : allotted.program.cost ![2, 2] = .finite 6 := by
    rw [program_cost]
    norm_num [allotted, Fin.sum_univ_two]
  have within (x : Fin 2 → ℚ) (inside : allotted.program.Feasible x) : x 0 + x 1 ≤ 4 ∧ x 1 ≤ 2 := by
    obtain ⟨-, -, rows⟩ := program_feasible.mp inside
    have shared := rows (.ofVector ![1, 1], .finite 4) (by simp [allotted, ConstraintBlock.ofVectors])
    have second := rows (.ofVector ![0, 1], .finite 2) (by simp [allotted, ConstraintBlock.ofVectors])
    rw [SparseRow.ofVector_dot, Extended.le_finite, decide_eq_true_eq, Fin.sum_univ_two] at shared second
    simp at shared second
    exact ⟨shared, second⟩
  refine ⟨?_, ?_, ?_⟩
  · rw [allottedRoutine, checked_call, call_program, LinearProgram.towards_cost, value]
    · rfl
    · norm_num
    · decide +kernel
    · exact ⟨by cbv, rfl, rfl⟩
  · rw [call_program, LinearProgram.towards_minimal]
    refine ⟨program_feasible.mpr ⟨?_, ?_, by decide +kernel⟩, fun y inside => ?_⟩
    · simp [allotted, Fin.forall_fin_two]
    · have below : (2 : ℚ) ≤ 3 := by norm_num
      simpa [allotted, Fin.forall_fin_two] using below
    · obtain ⟨shared, second⟩ := within y inside
      have most : y 0 + 2 * y 1 ≤ 6 := by linarith
      rw [value, program_cost, Fin.sum_univ_two]
      simpa [allotted, Direction.signed] using most
  · rw [call_program]
    refine ⟨rfl, by simp [Direction.Admits], by decide +kernel, fun i _ => ?_⟩
    fin_cases i <;> decide +kernel

-- The least opposite is minus six, with multipliers of opposite signs; the answers are those of the maximum.
theorem stated_optimum_allotted :
    (allotted.lower = none ∨ allotted.upper = none → Tensor.fits 2 [2] = true) ∧ allottedRoutine.SkipsEmpty ∧
      allotted.call.Solved allottedRoutine ![2, 2] [-1, 0, -1] ∧
      ∃ zs : List ℚ, allotted.program.Optimal .maximise ![2, 2] ∧
        allotted.program.ValidMultipliers .maximise ![2, 2] zs ∧
        (allotted.run allottedRoutine 2).map DeferredProgram.answers = .ok (allotted.program.answersAt ![2, 2] zs) ∧
        ∀ blocks : List (ConstraintBlock (Extended ℚ)), blocks.flatten = allotted.blocks.flatten →
          ({ allotted with blocks }.run allottedRoutine 2).map DeferredProgram.answers
            = (allotted.run allottedRoutine 2).map DeferredProgram.answers := by
  have room : allotted.lower = none ∨ allotted.upper = none → Tensor.fits 2 [2] = true := by decide
  have skips : allottedRoutine.SkipsEmpty := SolverCall.checked_skipsEmpty _ _
  exact ⟨room, skips, allotted_solved, stated_optimum allotted room skips allotted_solved⟩

end Allotted

end StatedProgram

end MarkovDecision
