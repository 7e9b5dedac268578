import MarkovDecision.LinearProgram.States
import MarkovDecision.Policy.Basic
import MarkovDecision.Tensor.Stretch

namespace MarkovDecision

variable {α : Type} [Scalar α]

abbrev Multipliers (α : Type) := Option (Tensor α)

namespace StateProgram

def slacks (c : StateProgram α) (value : Tensor α) : Option (Tensor α) := do
  Tensor.zipStretched? (· - ·) (.ofVector c.bound) (← c.matrix.applyTo? value)

-- Position of the least entry, of several the first; a NaN is below everything.
def leastPosition (xs : List α) : Nat :=
  match xs with
  | [] => 0
  | x :: rest =>
    ((rest.zipIdx 1).foldl (fun (best : α × Nat) (y, i) =>
      if Scalar.isNaN best.1 then best
      else if Scalar.isNaN y || Scalar.lt y best.1 then (y, i)
      else best) (x, 0)).2

def scaleOf (x : α) : α := if Scalar.lt Scalar.one (Scalar.abs x) then Scalar.abs x else Scalar.one

def valueAt (value : Tensor α) (s : Nat) : Option α :=
  match value.shape with
  | [_] | [_, 1] => value.cells[s]?
  | _ => none

-- Which rows have a multiplier beyond the tolerance. Multipliers of another number than the rows
-- tell nothing.
def preferredRows (rows : Nat) (multipliers : Multipliers α) (tolerance : α) : Outcome α (Tensor Bool) :=
  let nothing : Tensor Bool := .ofVector (Array.replicate rows false)
  match multipliers with
  | none => .ok nothing
  | some ys =>
    match ys.length? with
    | none => .error .invalidInput
    | some n =>
      .ok (if n == rows then ys.map fun y => Scalar.lt tolerance (Scalar.abs y) else nothing)

-- A binding row with a multiplier beyond the tolerance comes first, then any binding row, then the
-- row with the least slack.
def chooseRow (limit : α) (slacks : Tensor α) (preferred : Tensor Bool) : Option Nat := do
  let binding := slacks.map fun x => Scalar.le x limit
  let both ← Tensor.zipStretched? (· && ·) binding preferred
  return match both.cells.toList.findIdx? id, binding.cells.toList.findIdx? id with
  | some k, _ => k
  | none, some k => k
  | none, none => leastPosition slacks.cells.toList

def chooseAction (c : StateProgram α) (slacks : Tensor α) (preferred : Tensor Bool) (value : Tensor α)
    (tolerance : α) (s : Nat) : Outcome α Int := do
  let first := c.rowOffsets.getD s 0
  let last := c.rowOffsets.getD (s + 1) 0
  if first == last then return 0
  let x ← Outcome.ofOption (valueAt value s)
  let k ← Outcome.ofOption
    (chooseRow (tolerance * scaleOf x) (slacks.between first last) (preferred.between first last))
  let action ← entry c.rowAction (first + k : Nat)
  return action

def recoverPolicy (c : StateProgram α) (value : Tensor α) (multipliers : Multipliers α)
    (tolerance : Option α) : Outcome α (Policy α) := do
  if c.matrix.rows.isEmpty then return .stationary (Array.replicate c.stateCount 0)
  let slacks ← Outcome.ofOption (c.slacks value)
  let tolerance ← Outcome.ofOption tolerance
  let preferred ← preferredRows c.matrix.height multipliers tolerance
  let actions ← (List.range c.stateCount).mapM (c.chooseAction slacks preferred value tolerance)
  return .stationary actions.toArray

end StateProgram

end MarkovDecision
