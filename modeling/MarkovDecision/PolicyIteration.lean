import MarkovDecision.Bellman.Sweep
import MarkovDecision.Journal.Basic
import MarkovDecision.PolicyEvaluation

namespace MarkovDecision

variable {α : Type} [Scalar α]

structure PolicyIterationResult (α : Type) where
  value : Array α
  policy : Policy α
  iterations : Nat
  converged : Bool
  trace : Trace α

namespace PolicyIteration

def algorithm (sparse : Bool) : String :=
  if sparse then "Sparse policy iteration" else "Policy iteration"

def stepName : String := "iteration"

def valueName : String := "changed_actions"

def initialActions (m : Model α) (initial : Option (PolicyData α)) : Outcome α (Array Int) :=
  match initial with
  | none => .ok (Array.replicate m.stateCount 0)
  | some given => do
    match ← given.validate m none with
    | .stationary actions => return actions
    | _ => throw .initialPolicyKind

def changedActions (before after : Array Int) : Nat :=
  ((after.toList.zip before.toList).filter fun (a, b) => a != b).length

-- The value is that of the last policy evaluated, and the actions are greedy for it.
structure Progress (α : Type) where
  value : Array α
  actions : Array Int
  iterations : Nat
  converged : Bool

def improve (m : Model α) (o : Objective α) (sparse : Bool) (actions : Array Int) :
    Outcome α (Array α × Array Int) := do
  let value ← evaluatePolicy m (.objective o) (.policy (.stationary actions)) sparse
  let buffers ← m.bellman (.objective o) value .serial
  return (value, buffers.actions)

def iterate (improve : Array Int → Outcome α (Array α × Array Int)) :
    Nat → Nat → Progress α → Journaled α (Progress α)
  | 0, _, p => return p
  | fuel + 1, done, p => do
    let (value, actions) ← InPlace.lift (improve p.actions)
    let changed := changedActions p.actions actions
    Journaled.note (.row (done + 1) (.whole changed))
    let p := ⟨value, actions, done + 1, changed == 0⟩
    if p.converged then return p else iterate improve fuel (done + 1) p

end PolicyIteration

def policyIteration (m : Model α) (o : Objective α) (initial : Option (PolicyData α))
    (settings : Settings α) (sparse : Bool) : Journaled α (PolicyIterationResult α) := do
  match o with
  | .infinite _ =>
    Journaled.begin settings (PolicyIteration.algorithm sparse) PolicyIteration.valueName o m.stateCount
    let actions ← InPlace.lift (PolicyIteration.initialActions m initial)
    let p ← PolicyIteration.iterate (PolicyIteration.improve m o sparse) settings.iterations 0
      ⟨#[], actions, 0, false⟩
    Journaled.note (.closing p.converged)
    if !p.converged then Journaled.note (.warning (.unstablePolicy p.iterations))
    let journal ← get
    return {
      value := p.value
      policy := .stationary p.actions
      iterations := p.iterations
      converged := p.converged
      trace := ⟨PolicyIteration.stepName, PolicyIteration.valueName, journal.rows⟩ }
  | _ => throw .policyIterationObjective

end MarkovDecision
