import MarkovDecision.Model.Basic

namespace MarkovDecision

namespace FlatModel

variable {α : Type} [Scalar α]

def cellAt (t : Tensor α) (i : Nat) : α := t.cells.getD i Scalar.zero

def rowColumns (states : Nat) (P r : Tensor α) (s : Nat) : Columns α :=
  let next := (List.range states).filter fun j => !Scalar.eq (cellAt P (s * states + j)) Scalar.zero
  { next := next.map Int.ofNat
    probability := next.map fun j => cellAt P (s * states + j)
    reward := next.map fun j => if r.shape.length == 1 then cellAt r s else cellAt r (s * states + j) }

def checkMatrices (states : Nat) : List (Tensor α × Tensor α) → Outcome α Unit
  | [] => .ok ()
  | (P, r) :: rest => do
    if P.shape != [states, states] then throw .matrixShape
    if r.shape != [states] && r.shape != [states, states] then throw (.rewardShape r.shape states)
    checkMatrices states rest

def ofMatrices (actions : List (Tensor α × Tensor α)) (merge : Bool) : Outcome α (FlatModel α) := do
  match actions with
  | [] => throw .matrixCounts
  | (P, _) :: _ =>
    match P.length? with
    | none => throw .index
    | some states =>
      checkMatrices states actions
      let rows := (List.range states).map fun s =>
        Except.ok (actions.map fun (P, r) => Except.ok (.ofColumns (rowColumns states P r s)))
      let m ← build defaultTolerance rows
      if merge then (Model.flat m).flatten true else return m

end FlatModel

end MarkovDecision
