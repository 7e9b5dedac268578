import MarkovDecision.Model.Flat
import MarkovDecision.Model.Table

namespace MarkovDecision

inductive Model (α : Type) where
  | table (t : Table α)
  | flat (m : FlatModel α)

namespace Model

variable {α : Type}

def stateCount : Model α → Nat
  | table t => t.stateCount
  | flat m => m.stateCount

def actionCount (m : Model α) (s : Int) : Outcome α Int :=
  match m with
  | table t => t.actionCount s
  | flat m => m.actionCount s

def transitions (m : Model α) (s a : Int) : Outcome α (List (Transition α)) :=
  match m with
  | table t => t.transitions s a
  | flat m => m.transitions s a

def isTerminal [Scalar α] (m : Model α) (s : Int) : Outcome α Bool := do
  let count ← m.actionCount s
  if count != 1 then return false
  match ← m.transitions s 0 with
  | [t] => return t.next.names s && Scalar.isSurely t.probability.value && Scalar.eq t.reward.value Scalar.zero
  | _ => return false

def terminalStates [Scalar α] (m : Model α) : Outcome α (List Nat) :=
  (List.range m.stateCount).filterM fun (s : Nat) => m.isTerminal s

def columnsOf [Scalar α] (ts : List (Transition α)) : Outcome α (Columns α) := do
  let next ← ts.mapM fun t => Outcome.ofOption t.next.column?
  return { next, probability := ts.map (·.probability.value), reward := ts.map (·.reward.value) }

-- One action on its way into flat arrays. Merging reads it at once; without merging it is read
-- when the arrays are built.
def actionArrays [Scalar α] (merge : Bool) (m : Model α) (s a : Nat) :
    Outcome α (Outcome α (ActionArrays α)) := do
  let ts ← m.transitions s a
  if merge then
    let c ← columnsOf ts
    return .ok (.ofColumns c.merged)
  else return (columnsOf ts).map .ofColumns

def flatten [Scalar α] (m : Model α) (merge : Bool) : Outcome α (FlatModel α) := do
  let states ← (List.range m.stateCount).mapM fun (s : Nat) => do
    let count ← m.actionCount s
    (List.range count.toNat).mapM fun (a : Nat) => m.actionArrays merge s a
  FlatModel.build FlatModel.defaultTolerance (states.map .ok)

end Model

end MarkovDecision
