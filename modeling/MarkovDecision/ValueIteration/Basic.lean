import MarkovDecision.ValueIteration.Backward
import MarkovDecision.ValueIteration.Fixpoint

namespace MarkovDecision

variable {α : Type} [Scalar α]

def valueIteration (m : Model α) (o : Objective α) (policy : Option (PolicyData α))
    (terminal : Option (TerminalValue α)) (settings : Settings α) :
    Journaled α (ValueIterationResult α) :=
  match o with
  | .finite _ horizon => finiteValueIteration m o horizon policy (terminal.getD .zero) settings
  | .infinite discount => do
    if terminal.isSome then throw .terminalNotApplicable
    infiniteValueIteration m o discount policy settings
  | .total => throw .totalRewardIteration
  | .base => throw (.objectiveUnsupported o.name)

inductive ValueStorage (α : Type) where
  | stationary (v : Array α) (actions : Array Int)
  | staged (stages : Stages α)

def ValueStorage.ofObjective (m : Model α) (o : Objective α) (capacity : Nat := Tensor.usualCapacity) :
    Outcome α (ValueStorage α) :=
  match o with
  | .finite _ horizon => do return .staged (← Stages.make capacity horizon m.stateCount)
  | _ =>
    .ok (.stationary (Array.replicate m.stateCount Scalar.zero) (Array.replicate m.stateCount 0))

end MarkovDecision
