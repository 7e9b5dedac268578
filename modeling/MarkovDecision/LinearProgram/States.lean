import MarkovDecision.Linear.Sparse
import MarkovDecision.Model.Basic
import MarkovDecision.Objective

namespace MarkovDecision

variable {α : Type} [Scalar α]

structure StateProgram (α : Type) where
  matrix : SparseMatrix α
  bound : Array α
  lower : Array α
  upper : Array α
  rowState : Array Nat
  rowAction : Array Nat
  -- the rows of state s are those from entry s up to entry s + 1
  rowOffsets : Array Nat

namespace StateProgram

structure RowRule (α : Type) where
  own : α
  follow : α
  bound : List (Transition α) → Quantity α
  fixTerminal : Bool

structure RawRow (α : Type) where
  state : Nat
  action : Nat
  entries : List (Option Int × α)
  bound : Quantity α

structure StateRows (α : Type) where
  fixed : Bool
  rows : List (RawRow α)

def rawRow (m : Model α) (rule : RowRule α) (s a : Nat) : Outcome α (RawRow α) := do
  let ts ← m.transitions s a
  return {
    state := s
    action := a
    entries := (some (Int.ofNat s), rule.own)
      :: ts.map fun t => (t.next.place?, rule.follow * t.probability.value)
    bound := rule.bound ts }

def stateRows (m : Model α) (rule : RowRule α) (s : Nat) : Outcome α (StateRows α) := do
  let count ← m.actionCount s
  if count == 0 then throw (.emptyActionSet s)
  if rule.fixTerminal then
    if ← m.isTerminal s then return ⟨true, []⟩
  return ⟨false, ← (List.range count.toNat).mapM fun (a : Nat) => rawRow m rule s a⟩

-- All states are read before the columns of any row are looked at.
def collect (m : Model α) (rule : RowRule α) : Outcome α (StateProgram α) := do
  let states ← (List.range m.stateCount).mapM (stateRows m rule)
  let rows := states.flatMap (·.rows)
  let bound ← Outcome.ofOption (rows.mapM (·.bound.value?))
  let matrix ← Outcome.ofOption (SparseMatrix.ofEntries? m.stateCount (rows.map (·.entries)))
  return {
    matrix := matrix.dropZeros
    bound := bound.toArray
    lower := (states.map fun s => if s.fixed then Scalar.zero else Scalar.negInfinity).toArray
    upper := (states.map fun s => if s.fixed then Scalar.zero else Scalar.infinity).toArray
    rowState := (rows.map (·.state)).toArray
    rowAction := (rows.map (·.action)).toArray
    rowOffsets := offsets (states.map fun s => s.rows.length) }

def expectedReward (ts : List (Transition α)) : Quantity α :=
  ts.foldl (fun total t => total.add (t.probability.mul t.reward)) (.whole 0)

-- -v(s) + discount * E v ≤ -r(s,a) for every action. Without discount the value of terminal states
-- is fixed at zero.
def value (m : Model α) (goal : Goal α) : Outcome α (StateProgram α) := do
  let discount ← goal.discount
  let fixTerminal := match goal with
    | .objective o => o.isTotal
    | .bare _ => false
  collect m ⟨-Scalar.one, discount, fun ts => (expectedReward ts).neg, fixTerminal⟩

-- v(s) - E v ≤ 1 for every action: the greatest sum of v is bounded iff some policy is transient.
def someTransience (m : Model α) : Outcome α (StateProgram α) :=
  collect m ⟨Scalar.one, -Scalar.one, fun _ => .whole 1, true⟩

-- v(s) - E v ≥ 1 for every action: there is such a v iff every policy is transient.
def everyTransience (m : Model α) : Outcome α (StateProgram α) :=
  collect m ⟨-Scalar.one, Scalar.one, fun _ => .whole (-1), true⟩

def stateCount (c : StateProgram α) : Nat := c.lower.size

end StateProgram

end MarkovDecision
