import MarkovDecision.Bellman.Sweep
import MarkovDecision.Number.Norm
import MarkovDecision.Policy.Validation
import MarkovDecision.ValueIteration.Result

namespace MarkovDecision

variable {α : Type} [Scalar α]

namespace FixpointIteration

def algorithm : String := "Value iteration"

def stepName : String := "iteration"

def valueName : String := "residual"

-- The largest change that ends the iteration. Without discount every sweep is the last one.
def threshold (settings : Settings α) (discount : α) : Outcome α α :=
  if Scalar.lt Scalar.zero discount then do
    let epsilon ← Outcome.ofOption settings.epsilon.value?
    return epsilon * (Scalar.one - discount) / discount
  else .ok Scalar.infinity

def changeOf : StopRule → List α → α
  | .supremum => supNorm
  | .span => spanSeminorm

-- Sweeps run in chunks side by side where that is asked for and there is a choice of workers.
def schedule (m : Model α) (policy : Option (Policy α)) (settings : Settings α) : Schedule :=
  match settings.parallel, policy, m with
  | true, some _, _ | true, none, .table _ => .chunked (settings.workers.getD 1) settings.capacity
  | _, _, _ => .serial

def step (m : Model α) (o : Objective α) (policy : Option (Policy α)) (schedule : Schedule)
    (v : Array α) : Outcome α (Array α) :=
  match policy with
  | none => do
    return (← m.bellman (.objective o) v schedule).values
  | some p => m.followed (.objective o) 0 v p schedule

structure Progress (α : Type) where
  value : Array α
  iterations : Nat
  residual : α
  converged : Bool

def iterate (next : Array α → Outcome α (Array α)) (change : List α → α) (threshold : α) :
    Nat → Nat → Progress α → Journaled α (Progress α)
  | 0, _, p => return p
  | fuel + 1, done, p => do
    let v ← InPlace.lift (next p.value)
    let residual := change (List.zipWith (· - ·) v.toList p.value.toList)
    Journaled.note (.row (done + 1) (.real residual))
    let p := ⟨v, done + 1, residual, Scalar.le residual threshold⟩
    if p.converged then return p else iterate next change threshold fuel (done + 1) p

def start (m : Model α) : Progress α :=
  ⟨Array.replicate m.stateCount Scalar.zero, 0, Scalar.infinity, false⟩

def run (m : Model α) (o : Objective α) (discount : α) (policy : Option (Policy α))
    (settings : Settings α) : Journaled α (ValueIterationResult α) := do
  let threshold ← InPlace.lift (threshold settings discount)
  let schedule := schedule m policy settings
  Journaled.begin settings algorithm valueName o m.stateCount
  let p ← iterate (step m o policy schedule) (changeOf settings.stopRule) threshold
    settings.iterations 0 (start m)
  let greedy ← InPlace.lift (match policy with
    | none => do
      return some (Policy.stationary (← m.bellman (.objective o) p.value schedule).actions)
    | some _ => .ok none)
  Journaled.note (.closing p.converged)
  if !p.converged then
    Journaled.note (.warning (.residualAbove p.iterations p.residual threshold))
  let journal ← get
  return {
    value := .stationary p.value
    policy := greedy
    iterations := p.iterations
    residual := some p.residual
    converged := p.converged
    trace := ⟨stepName, valueName, journal.rows⟩ }

end FixpointIteration

def infiniteValueIteration (m : Model α) (o : Objective α) (discount : α)
    (policy : Option (PolicyData α)) (settings : Settings α) :
    Journaled α (ValueIterationResult α) := do
  let policy ← InPlace.lift (policy.mapM fun given => do
    let p ← given.validate m none
    if !p.isStationary then throw .stationaryOnly
    return p)
  FixpointIteration.run m o discount policy settings

end MarkovDecision
