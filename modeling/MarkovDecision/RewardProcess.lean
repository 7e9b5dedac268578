import MarkovDecision.Bellman.Operator
import MarkovDecision.Linear.Sparse
import MarkovDecision.Policy.Validation

namespace MarkovDecision

variable {α : Type} [Scalar α]

structure RewardProcess (α : Type) where
  transition : Array (Array α)
  reward : Array α

structure SparseRewardProcess (α : Type) where
  transition : SparseMatrix α
  reward : Array α

namespace Model

-- The outcomes of one action, handed on one by one with their weighted probabilities. The labels
-- seen so far belong to this action alone.
def foldAction {β : Type} (s a : Int) (weight : α) (step : β → StateLabel → α → α → Outcome α β) :
    β → List StateLabel → List (Transition α) → Outcome α β
  | acc, _, [] => .ok acc
  | acc, seen, t :: rest => do
    if !t.next.comparable then throw .invalidInput
    if seen.any t.next.same then throw (.repeatedTransition s a t.next.literal)
    let acc ← step acc t.next (weight * t.probability.value) t.reward.value
    foldAction s a weight step acc (t.next :: seen) rest

def foldOutcomes {β : Type} (m : Model α) (policy : Policy α) (s : Int)
    (step : β → StateLabel → α → α → Outcome α β) (start : β) : Outcome α β := do
  let choices ← policy.distribution s 0
  choices.foldlM (fun acc (a, weight) => do
    foldAction s a weight step acc [] (← m.transitions s a)) start

end Model

def stationaryPolicy (m : Model α) (given : PolicyData α) : Outcome α (Policy α) := do
  let policy ← given.validate m none
  if !policy.isStationary then throw .rewardProcessStationary
  return policy

namespace RewardProcess

def addOutcome (acc : Array α × α) (next : StateLabel) (p r : α) : Outcome α (Array α × α) := do
  let i ← next.position
  match indexFrom acc.1.size i with
  | some k => return (acc.1.setIfInBounds k (acc.1.getD k Scalar.zero + p), acc.2 + p * r)
  | none => throw .index

def row (m : Model α) (policy : Policy α) (s : Nat) : Outcome α (Array α × α) :=
  m.foldOutcomes policy s addOutcome (Array.replicate m.stateCount Scalar.zero, Scalar.zero)

def ofPolicy (m : Model α) (given : PolicyData α) : Outcome α (RewardProcess α) := do
  let policy ← stationaryPolicy m given
  let rows ← (List.range m.stateCount).mapM (row m policy)
  return { transition := (rows.map (·.1)).toArray, reward := (rows.map (·.2)).toArray }

end RewardProcess

namespace SparseRewardProcess

def addOutcome (acc : List (Option Int × α) × α) (next : StateLabel) (p r : α) :
    Outcome α (List (Option Int × α) × α) :=
  .ok (acc.1 ++ [(next.place?, p)], acc.2 + p * r)

def row (m : Model α) (policy : Policy α) (s : Nat) : Outcome α (List (Option Int × α) × α) :=
  m.foldOutcomes policy s addOutcome ([], Scalar.zero)

-- The columns are looked at after all states have been read.
def ofPolicy (m : Model α) (given : PolicyData α) : Outcome α (SparseRewardProcess α) := do
  let policy ← stationaryPolicy m given
  let rows ← (List.range m.stateCount).mapM (row m policy)
  let transition ← Outcome.ofOption (SparseMatrix.ofEntries? m.stateCount (rows.map (·.1)))
  return { transition, reward := (rows.map (·.2)).toArray }

end SparseRewardProcess

end MarkovDecision
