import MarkovDecision.Model.Basic
import MarkovDecision.Objective
import MarkovDecision.Policy.Basic

namespace MarkovDecision

variable {α : Type} [Scalar α]

abbrev Reader (α : Type) := Int → Outcome α α

def Reader.ofArray (v : Array α) : Reader α := entry v

def backup (discount : α) (v : Reader α) (ts : List (Transition α)) : Outcome α α :=
  ts.foldlM (fun total t => do
    let value ← v (← t.next.position)
    return total + t.probability.value * (t.reward.value + discount * value)) Scalar.zero

namespace Model

def actionValue (m : Model α) (goal : Goal α) (s a : Int) (v : Reader α) : Outcome α α := do
  let discount ← goal.discount
  backup discount v (← m.transitions s a)

def positiveCount (m : Model α) (s : Int) : Outcome α Nat := do
  let count ← m.actionCount s
  if count ≤ 0 then throw (.emptyActionSet s)
  return count.toNat

end Model

abbrev Choice (α : Type) := α × Int

def Choice.none : Choice α := (Scalar.negInfinity, -1)

-- A later action has to be strictly better, so ties go to the lowest one. A NaN never wins.
def Choice.improve (best : Choice α) (value : α) (a : Int) : Choice α :=
  if Scalar.lt best.1 value then (value, a) else best

namespace Model

def greedyChoice (m : Model α) (goal : Goal α) (s : Int) (v : Reader α) : Outcome α (Choice α) := do
  let count ← m.positiveCount s
  (List.range count).foldlM (fun (best : Choice α) (a : Nat) => do
    return best.improve (← m.actionValue goal s a v) a) Choice.none

-- The values of all actions of a state. There is no list of a negative length to put them in.
def actionValues (m : Model α) (goal : Goal α) (s : Int) (v : Reader α) : Outcome α (List α) := do
  if (← m.actionCount s) < 0 then throw .invalidInput
  let count ← m.positiveCount s
  (List.range count).mapM fun (a : Nat) => m.actionValue goal s a v

def policyValue (m : Model α) (goal : Goal α) (t s : Int) (policy : Policy α) (v : Reader α) :
    Outcome α α := do
  let choices ← policy.distribution s t
  choices.foldlM (fun total (a, p) => do
    return total + p * (← m.actionValue goal s a v)) Scalar.zero

end Model

namespace FlatModel

def pairValue (m : FlatModel α) (discount : α) (v : Reader α) (k : Nat) : Outcome α α :=
  let first := m.pairOffsets.getD k 0
  let last := m.pairOffsets.getD (k + 1) 0
  (List.range' first (last - first)).foldlM (fun total (i : Nat) => do
    let p ← entry m.probability i
    let r ← entry m.reward i
    let value ← v (← entry m.next i)
    return total + p * (r + discount * value)) Scalar.zero

def greedyChoice (m : FlatModel α) (discount : α) (s : Nat) (v : Reader α) :
    Outcome α (Choice α) :=
  let base := m.stateOffsets.getD s 0
  let count := m.stateOffsets.getD (s + 1) 0 - base
  (List.range count).foldlM (fun (best : Choice α) (a : Nat) => do
    return best.improve (← m.pairValue discount v (base + a)) a) Choice.none

end FlatModel

end MarkovDecision
