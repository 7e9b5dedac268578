import MarkovDecision.Failure
import MarkovDecision.LinearProgram.Basic
import MarkovDecision.Literal.Tensor
import MarkovDecision.Settings.Basic

namespace MarkovDecision

variable {α : Type} [Scalar α]

namespace ProgramOutcome

def optimalName : String := "OPTIMAL"

def name {α : Type} : ProgramOutcome α → String
  | optimal _ _ _ => optimalName
  | infeasible => "INFEASIBLE"
  | unbounded => "UNBOUNDED"
  | undecided => "UNKNOWN"

end ProgramOutcome

def isFinite (x : α) : Bool := Scalar.eq (x - x) Scalar.zero

def finiteBound (x : α) : Option α := if isFinite x then some x else none

def pairBounds (lower upper : List α) : List (Option α × Option α) :=
  (lower.zip upper).map fun (l, u) => (finiteBound l, finiteBound u)

-- One list of bounds; without one all variables, as many as there are, are unbounded on that side.
def boundList (capacity : Nat) (count : Int) (given : Option (Tensor α)) (missing : α) : Outcome α (List α) :=
  match given with
  | none =>
    if 0 ≤ count && Tensor.fits capacity [count.toNat] then .ok (List.replicate count.toNat missing)
    else .error .invalidInput
  | some t => do
    return (← Outcome.ofOption t.vector?).toList

def sparseOf (t : Tensor α) : Outcome α (SparseMatrix α) :=
  let rowOf (cells : Array α) : SparseRow α :=
    SparseRow.dropZeros (cells.toList.zipIdx.map fun (x, i) => (i, x))
  match t.shape with
  | [width] => .ok ⟨width, [rowOf t.cells]⟩
  | [_, width] => do
    return ⟨width, (← Outcome.ofOption t.rows?).toList.map rowOf⟩
  | _ => .error .invalidInput

structure SolverCall (α : Type) where
  objective : Tensor α
  matrix : Option (SparseMatrix α)
  rhs : Option (List α)
  bounds : Option (List (Option α × Option α))

abbrev SolverRoutine (α : Type) := SolverCall α → Outcome α (ProgramOutcome α)

namespace SolverCall

def squeezed? (t : Tensor α) : Option (List α) :=
  if (t.shape.filter (· != 1)).length ≤ 1 then some t.cells.toList else none

def boundsFor? (count : Nat) :
    Option (List (Option α × Option α)) → Option (List (Option α × Option α))
  | none | some [] => some (List.replicate count (some Scalar.zero, none))
  | some bs =>
    if bs.length == count then some bs
    else match bs with
      | [b] => some (List.replicate count b)
      | _ => none

def program? (c : SolverCall α) : Option (LinearProgram α) := do
  let objective ← squeezed? c.objective
  let bounds ← boundsFor? objective.length c.bounds
  let rows := (c.matrix.map SparseMatrix.rows).getD []
  let rhs := c.rhs.getD []
  guard (!objective.isEmpty && objective.all isFinite)
  guard ((c.matrix.map SparseMatrix.width).getD objective.length == objective.length)
  guard (rows.length == rhs.length && rhs.all isFinite)
  guard (rows.all fun row => row.all fun e => isFinite e.2)
  return { objective, bounds, constraints := rows.zip rhs }

def methods : List String := ["highs", "highs-ds", "highs-ipm"]

def isMethod (l : Literal) : Bool :=
  match l with
  | .text s => methods.contains s.toLower
  | _ => false

def isTolerance (l : Literal) : Bool :=
  match l with
  | .null => true
  | l => l.quantity?.isSome

def checked (settings : BackendSettings) (solver : ProgramSolver α) : SolverRoutine α := fun call => do
  if !isMethod settings.method || !isTolerance settings.feasibility
      || !isTolerance settings.optimality then
    throw .invalidInput
  let program ← Outcome.ofOption call.program?
  return solver program

end SolverCall

structure DeferredProgram (α : Type) where
  -- as it was stated; the bounds tell how many there are
  unknowns : Int
  bounds : Option (List (Option α × Option α))
  blocks : List (SparseMatrix α × Tensor α)
  objective : Option (Tensor α)
  direction : Direction
  -- as of the last preparation
  matrix : Option (SparseMatrix α)
  rhs : Option (List α)
  outcome : Option (ProgramOutcome α)

namespace DeferredProgram

def empty : DeferredProgram α :=
  { unknowns := 0, bounds := none, blocks := [], objective := none, direction := .minimise
    matrix := none, rhs := none, outcome := none }

def setUpVariables (capacity : Nat) (p : DeferredProgram α) (count : Int) (lower upper : Option (Tensor α)) :
    Outcome α (DeferredProgram α) := do
  let lower ← boundList capacity count lower Scalar.negInfinity
  let upper ← boundList capacity count upper Scalar.infinity
  return { p with unknowns := count, bounds := some (pairBounds lower upper) }

def addConstraints (p : DeferredProgram α) (matrix : SparseMatrix α) (rhs : Tensor α) :
    DeferredProgram α :=
  { p with blocks := p.blocks ++ [(matrix, rhs)] }

def setObjective (p : DeferredProgram α) (objective : Tensor α) (direction : Direction) :
    DeferredProgram α :=
  { p with objective := some objective, direction }

def stacked? : List (SparseMatrix α) → Option (SparseMatrix α)
  | [] => none
  | m :: rest =>
    if rest.all (fun n => n.width == m.width) then
      some ⟨m.width, (m :: rest).flatMap SparseMatrix.rows⟩
    else none

-- Stacks the blocks. The matrix is replaced even if the bounds then fail to be stacked.
def prepare (p : DeferredProgram α) : DeferredProgram α × Outcome α Unit :=
  if p.blocks.isEmpty then (p, .ok ())
  else
    match stacked? (p.blocks.map (·.1)) with
    | none => (p, .error .invalidInput)
    | some matrix =>
      let p := { p with matrix := some matrix }
      match p.blocks.mapM fun b => b.2.vector? with
      | some rhs => ({ p with rhs := some (rhs.flatMap Array.toList) }, .ok ())
      | none => (p, .error .invalidInput)

def size (p : DeferredProgram α) : Int × Nat := (p.unknowns, (p.matrix.map SparseMatrix.height).getD 0)

-- The program as a routine is called with it; a maximum is the minimum of the opposite objective.
def call? (p : DeferredProgram α) : Option (SolverCall α) :=
  p.objective.map fun objective =>
    { objective := objective.map p.direction.signed
      matrix := p.matrix
      rhs := p.rhs
      bounds := p.bounds }

def optimize (p : DeferredProgram α) (routine : SolverRoutine α) : Outcome α (DeferredProgram α) := do
  let call ← Outcome.ofOption p.call?
  return { p with outcome := some (← routine call) }

def ofProgram (p : LinearProgram α) (direction : Direction) : DeferredProgram α :=
  let start : DeferredProgram α := { empty with unknowns := p.bounds.length, bounds := some p.bounds }
  let loaded :=
    if p.constraints.isEmpty then start
    else start.addConstraints ⟨p.bounds.length, p.constraints.map (·.1)⟩
      (.ofVector (p.constraints.map (·.2)).toArray)
  (loaded.setObjective (.ofVector p.objective.toArray) direction).prepare.1

def value (p : DeferredProgram α) : Outcome α α :=
  match p.outcome with
  | some (.optimal _ x _) => .ok (p.direction.signed x)
  | _ => .error .invalidInput

def solution (p : DeferredProgram α) : Outcome α (List α) :=
  match p.outcome with
  | some (.optimal xs _ _) => .ok xs
  | _ => .error .invalidInput

def multipliers (p : DeferredProgram α) : Outcome α (List α) :=
  match p.matrix, p.outcome with
  | none, _ => .ok []
  | _, some (.optimal _ _ ys) => .ok (ys.map p.direction.signed)
  | _, _ => .error .invalidInput

def status (p : DeferredProgram α) : Outcome α String :=
  match p.outcome with
  | some outcome => .ok outcome.name
  | none => .error .invalidInput

end DeferredProgram

structure ImmediateProgram (α : Type) where
  bounds : List (Option α × Option α)
  -- first variable and number of variables of the last group
  group : Option (Nat × Nat)
  constraints : List (SparseRow α × α)
  objective : List α
  direction : Direction
  -- an objective takes effect with the next update
  pending : Option (List α × Direction)
  outcome : Option (ProgramOutcome α)

namespace ImmediateProgram

def empty : ImmediateProgram α :=
  { bounds := [], group := none, constraints := [], objective := [], direction := .minimise
    pending := none, outcome := none }

def greatestSeed : Int := 2000000000

def mostThreads : Int := 1024

def inRange (low high : Int) (l : Literal) : Bool :=
  match l.whole? with
  | some n => low ≤ n && n ≤ high
  | none => false

-- Tolerances are raised to 1e-9 and may not exceed 1e-2.
def isTolerance (l : Literal) : Bool :=
  match l.quantity? with
  | some q => !((0.01 : Float) < q.value)
  | none => false

def accepts (settings : BackendSettings) : Outcome α Unit :=
  if (settings.threads.map (inRange 0 mostThreads)).getD true && inRange 0 greatestSeed settings.seed
      && isTolerance settings.feasibility && isTolerance settings.optimality then .ok ()
  else .error .invalidInput

def update (p : ImmediateProgram α) : ImmediateProgram α :=
  match p.pending with
  | none => p
  | some (objective, direction) => { p with objective, direction, pending := none, outcome := none }

def setUpVariables (capacity : Nat) (p : ImmediateProgram α) (count : Int) (lower upper : Option (Tensor α)) :
    Outcome α (ImmediateProgram α) := do
  let lower ← boundList capacity count lower Scalar.negInfinity
  let upper ← boundList capacity count upper Scalar.infinity
  if (lower.length : Int) != count || (upper.length : Int) != count then throw .invalidInput
  return { p.update with
    bounds := p.bounds ++ pairBounds lower upper
    group := some (p.bounds.length, lower.length)
    outcome := none }

-- The group that constraints and objective are about; before the first one, all variables.
def currentGroup (p : ImmediateProgram α) : Nat × Nat := p.group.getD (0, p.bounds.length)

def addConstraints (p : ImmediateProgram α) (matrix : SparseMatrix α) (rhs : Tensor α) :
    Outcome α (ImmediateProgram α) := do
  let (first, count) := p.currentGroup
  let rhs ← Outcome.ofOption rhs.vector?
  if matrix.width != count || matrix.height != rhs.size then throw .invalidInput
  if !rhs.all isFinite || !matrix.rows.all (fun row => row.all fun e => isFinite e.2) then
    throw .invalidInput
  let rows := matrix.rows.map fun row => row.map fun (c, x) => (first + c, x)
  return { p.update with constraints := p.constraints ++ rows.zip rhs.toList, outcome := none }

def setObjective (p : ImmediateProgram α) (objective : Tensor α) (direction : Direction) :
    Outcome α (ImmediateProgram α) := do
  let cs ← Outcome.ofOption objective.vector?
  match p.group with
  | none => throw .invalidInput
  | some (first, count) =>
    if cs.size != count || !cs.all isFinite then throw .invalidInput
    return { p with pending := some (List.replicate first Scalar.zero ++ cs.toList, direction) }

def size (p : ImmediateProgram α) : Nat × Nat := (p.bounds.length, p.constraints.length)

def program (p : ImmediateProgram α) : LinearProgram α :=
  { objective := p.objective ++ List.replicate (p.bounds.length - p.objective.length) Scalar.zero
    bounds := p.bounds
    constraints := p.constraints }

def optimize (p : ImmediateProgram α) (solver : ProgramSolver α) : ImmediateProgram α :=
  let p := p.update
  { p with outcome := some ((solver (p.program.towards p.direction)).signed p.direction) }

def status (p : ImmediateProgram α) : String := ((p.outcome).getD .undecided).name

def value (p : ImmediateProgram α) : Outcome α α :=
  match p.outcome with
  | some (.optimal _ x _) => .ok x
  | _ => .error .invalidInput

def solution (p : ImmediateProgram α) : Outcome α (List α) :=
  match p.group, p.outcome with
  | some (first, count), some (.optimal xs _ _) => .ok ((xs.drop first).take count)
  | _, _ => .error .invalidInput

def multipliers (p : ImmediateProgram α) : Outcome α (List α) :=
  match p.constraints, p.outcome with
  | [], _ => .ok []
  | _, some (.optimal _ _ ys) => .ok ys
  | _, _ => .error .invalidInput

end ImmediateProgram

end MarkovDecision
