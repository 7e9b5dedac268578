import MarkovDecision.Model.Matrices

namespace MarkovDecision

def Transition.read (l : Literal) : Outcome Float (Transition Float) :=
  match l with
  | .list [next, probability, reward] => do
    let p ← Outcome.ofOption probability.quantity?
    let r ← Outcome.ofOption reward.quantity?
    if p.value?.isNone || r.value?.isNone then throw .invalidInput
    return ⟨.ofLiteral next, p, r⟩
  | _ => .error .invalidInput

def Table.read (states : Literal) : Outcome Float (Table Float) := do
  let rows ← Outcome.ofOption states.items?
  let states ← rows.mapM fun actions => do
    let actions ← Outcome.ofOption actions.items?
    return (actions.map fun outcomes => do
      let outcomes ← Outcome.ofOption outcomes.items?
      outcomes.mapM Transition.read).toArray
  return ⟨states.toArray⟩

def ActionArrays.read (l : Literal) : Outcome Float (ActionArrays Float) :=
  match l with
  | .list [next, probability, reward] => do
    return ⟨← Outcome.ofOption next.ints?, ← Outcome.ofOption probability.reals?,
      ← Outcome.ofOption reward.reals?⟩
  | _ => .error .invalidInput

def FlatModel.read (states : Literal) (tolerance : Float) : Outcome Float (FlatModel Float) := do
  let rows ← Outcome.ofOption states.parts?
  build tolerance (rows.map fun actions => do
    let actions ← Outcome.ofOption actions.parts?
    return actions.map ActionArrays.read)

def FlatModel.readMatrices (P r : Literal) (merge : Bool) : Outcome Float (FlatModel Float) := do
  let matrices ← Outcome.ofOption P.parts?
  if matrices.isEmpty then throw .matrixCounts
  let rewards ← Outcome.ofOption r.parts?
  if matrices.length != rewards.length then throw .matrixCounts
  let matrices ← matrices.mapM fun l => Outcome.ofOption l.reals?
  let rewards ← rewards.mapM fun l => Outcome.ofOption l.reals?
  ofMatrices (matrices.zip rewards) merge

def Columns.readMerged (next probability reward : Literal) : Outcome Float (Columns Float) := do
  let next ← Outcome.ofOption next.ints?
  let probability ← Outcome.ofOption probability.reals?
  let reward ← Outcome.ofOption reward.reals?
  let n ← Outcome.ofOption next.length?
  let m ← Outcome.ofOption probability.length?
  if n != m then throw .mergeLengths
  let k ← Outcome.ofOption reward.length?
  if m != k then throw .mergeLengths
  match next.vector?, probability.vector?, reward.vector? with
  | some next, some probability, some reward =>
    return Columns.merged ⟨next.toList, probability.toList, reward.toList⟩
  | _, _, _ => throw .invalidInput

end MarkovDecision
