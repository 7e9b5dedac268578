import MarkovDecision.Journal.Basic
import MarkovDecision.LinearProgram.Backend

namespace MarkovDecision

variable {α : Type} [Scalar α]

structure ProgramSolution (α : Type) where
  value : Tensor α
  policy : Policy α
  objective : α

namespace StateProgram

def program (c : StateProgram α) : LinearProgram α :=
  { objective := List.replicate c.stateCount Scalar.one
    bounds := pairBounds c.lower.toList c.upper.toList
    constraints := c.matrix.rows.zip c.bound.toList }

def consult (c : StateProgram α) (backend : Backend α) (direction : Direction) (settings : Settings α) :
    Journaled α (BackendReport α) := do
  let p := c.program
  Journaled.call (.setUpVariables c.stateCount (some c.lower.toList) (some c.upper.toList))
  if !c.matrix.rows.isEmpty then Journaled.call (.addConstraints c.matrix c.bound.toList)
  Journaled.call (.setObjective p.objective direction)
  Journaled.call .prepare
  if settings.verbose then
    Journaled.call .size
    let (unknowns, constraints) ← InPlace.lift (backend.size p)
    Journaled.note (.programSize unknowns constraints)
  Journaled.call .optimize
  let report ← InPlace.lift (backend.solve settings.backend direction p)
  Journaled.call .status
  return report

end StateProgram

def solveByProgram (m : Model α) (o : Objective α) (settings : Settings α)
    (backend : Outcome α (Backend α)) : Journaled α (ProgramSolution α) := do
  match o with
  | .finite _ _ => throw .finiteProgram
  | .base => throw (.objectiveUnsupported o.name)
  | _ =>
    let c ← InPlace.lift (StateProgram.value m (.objective o))
    let backend ← InPlace.lift backend
    let report ← c.consult backend .minimise settings
    if !report.isOptimal then
      Journaled.call .message
      throw (.notOptimal report.status report.message report.withheld)
    Journaled.call .solution
    let value ← InPlace.lift report.solution
    Journaled.call .multipliers
    let multipliers ← InPlace.lift report.multipliers
    let policy ← InPlace.lift (c.recoverPolicy value multipliers settings.bindingTolerance)
    Journaled.call .value
    let objective ← InPlace.lift report.value
    return { value, policy, objective }

def someTransient (m : Model α) (settings : Settings α) (backend : Outcome α (Backend α)) :
    Journaled α Bool := do
  let backend ← InPlace.lift backend
  let c ← InPlace.lift (StateProgram.someTransience m)
  return (← c.consult backend .maximise settings).isOptimal

def everyTransient (m : Model α) (settings : Settings α) (backend : Outcome α (Backend α)) :
    Journaled α Bool := do
  let backend ← InPlace.lift backend
  let c ← InPlace.lift (StateProgram.everyTransience m)
  return (← c.consult backend .minimise settings).isOptimal

end MarkovDecision
