import MarkovDecision.Model.Basic
import MarkovDecision.Number.Sum
import MarkovDecision.Policy.Basic

namespace MarkovDecision

namespace Policy

variable {α : Type} [Scalar α]

def belowHorizon (stages : Nat) (horizon : Literal) : Outcome α Bool :=
  match horizon with
  | .bool b => .ok ((stages : Int) < (if b then 1 else 0))
  | .int n => .ok ((stages : Int) < n)
  | .real x => .ok (Float.ofNat stages < x)
  | _ => .error .invalidInput

def checkAction (m : Model α) (actions : Array Int) (s : Nat) : Outcome α Unit := do
  let count ← m.actionCount s
  let a ← entry actions s
  if a < 0 || count ≤ a then throw (.actionNotValid a s)

def checkWeights (m : Model α) (states : Array (Weights α)) (s : Nat) : Outcome α Unit := do
  let count ← m.actionCount s
  let w ← entry states s
  let covered ← Outcome.ofOption w.tensor.length?
  if count < covered || w.cells.any (fun p => Scalar.lt p Scalar.zero)
      || !Scalar.isNearlyOne (Scalar.arraySum w.cells) then
    throw (.distributionNotValid s)

def checkStage (m : Model α) (rule : Policy α) : Outcome α Unit := do
  let covered ← Outcome.ofOption rule.length?
  if covered != m.stateCount then throw (.policyStates covered m.stateCount)
  match rule with
  | stationary actions => (List.range m.stateCount).forM (checkAction m actions)
  | randomized states => (List.range m.stateCount).forM (checkWeights m states)
  | _ => throw .invalidInput

def stages (p : Policy α) : List (Policy α) :=
  match p with
  | markov rules => rules.toList.map stationary
  | markovRandomized rules => rules.toList.map randomized
  | rule => [rule]

def validate (m : Model α) (p : Policy α) (horizon : Option Literal) : Outcome α Unit := do
  if !p.isStationary then
    match horizon, p.length? with
    | some h, some covered => if ← belowHorizon covered h then throw (.policyStages covered h)
    | _, _ => pure ()
  p.stages.forM (checkStage m)

end Policy

def PolicyData.validate {α : Type} [Scalar α] (m : Model α) (given : PolicyData α)
    (horizon : Option Literal) : Outcome α (Policy α) := do
  let p ← given.resolve
  p.validate m horizon
  return p

end MarkovDecision
