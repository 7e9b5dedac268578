import MarkovDecision.Bellman.Sweep
import MarkovDecision.Number.Norm
import MarkovDecision.Policy.Validation
import MarkovDecision.ValueIteration.Result
import MarkovDecision.ValueIteration.Terminal

namespace MarkovDecision

variable {α : Type} [Scalar α] {σ : Type}

structure StageMemory (σ α : Type) where
  -- reads row t + 1, writes row t of the values and row t of the actions
  stage : Nat → SweepMemory σ α
  row : Nat → σ → List α
  putTerminal : Array α → σ → σ

structure Workspace (σ α : Type) where
  memory : σ
  journal : Journal α

namespace Workspace

def onMemory {β : Type} (x : InPlace σ α β) : InPlace (Workspace σ α) α β :=
  x.within (·.memory) fun memory w => { w with memory }

def onJournal {β : Type} (x : Journaled α β) : InPlace (Workspace σ α) α β :=
  x.within (·.journal) fun journal w => { w with journal }

end Workspace

namespace BackwardInduction

def algorithm : String := "Finite-horizon value iteration"

def stepName : String := "stage"

def valueName : String := "value_norm"

def sweep (mem : StageMemory σ α) (m : Model α) (o : Objective α) (policy : Option (Policy α))
    (t : Nat) : InPlace σ α Unit :=
  match policy with
  | none => (mem.stage t).bellmanSweep m (.objective o) .serial
  | some p => do
    let rule ← InPlace.lift (if p.isStationary then .ok p else p.stage t)
    (mem.stage t).policySweep m (.objective o) t rule .serial

def stages (mem : StageMemory σ α) (m : Model α) (o : Objective α) (policy : Option (Policy α)) :
    Nat → InPlace (Workspace σ α) α Unit
  | 0 => pure ()
  | t + 1 => do
    Workspace.onMemory (sweep mem m o policy t)
    let w ← get
    Workspace.onJournal (Journaled.note (.row t (.real (supNorm (mem.row t w.memory)))))
    stages mem m o policy t

def run (mem : StageMemory σ α) (m : Model α) (o : Objective α) (horizon : Nat)
    (policy : Option (Policy α)) (terminal : TerminalValue α) (settings : Settings α) :
    InPlace (Workspace σ α) α Unit := do
  Workspace.onJournal (Journaled.begin settings algorithm valueName o m.stateCount)
  let w ← InPlace.lift (terminal.vector m.stateCount)
  Workspace.onMemory (InPlace.update fun s => .ok (mem.putTerminal w s))
  stages mem m o policy horizon
  Workspace.onJournal (Journaled.note (.closing true))

def trace (j : Journal α) : Trace α := ⟨stepName, valueName, j.rows⟩

end BackwardInduction

structure Stages (α : Type) where
  values : Array (Array α)
  actions : Array (Array Int)

namespace Stages

def zeros (horizon states : Nat) : Stages α :=
  { values := Array.replicate (horizon + 1) (Array.replicate states Scalar.zero)
    actions := Array.replicate horizon (Array.replicate states 0) }

def make (capacity horizon states : Nat) : Outcome α (Stages α) :=
  if Tensor.fits capacity [horizon + 1, states] then .ok (zeros horizon states) else .error .invalidInput

def valueRow (b : Stages α) (t : Nat) : Array α := b.values.getD t #[]

-- Writes within a row; rows of another length than the model has are refused beforehand.
def memory : StageMemory (Stages α) α where
  stage t := {
    value := fun b => Reader.ofArray (b.valueRow (t + 1))
    putValue := fun s x b =>
      if s < (b.valueRow t).size then
        .ok { b with values := b.values.modify t fun row => row.setIfInBounds s x }
      else .error .index
    putAction := fun s a b =>
      if s < (b.actions.getD t #[]).size then
        .ok { b with actions := b.actions.modify t fun row => row.setIfInBounds s a }
      else .error .index }
  row t b := (b.valueRow t).toList
  putTerminal w b := { b with values := b.values.setIfInBounds (b.values.size - 1) w }

end Stages

def finiteValueIteration (m : Model α) (o : Objective α) (horizon : Nat)
    (policy : Option (PolicyData α)) (terminal : TerminalValue α) (settings : Settings α) :
    Journaled α (ValueIterationResult α) := do
  let stages ← InPlace.lift (Stages.make settings.capacity horizon m.stateCount)
  let policy ← InPlace.lift (policy.mapM fun given =>
    given.validate m (some (.int horizon)))
  let before ← get
  let (outcome, w) := (BackwardInduction.run Stages.memory m o horizon policy terminal settings).runOn
    ⟨stages, before⟩
  set w.journal
  InPlace.lift outcome
  return {
    value := .staged w.memory.values
    policy := if policy.isNone then some (.markov w.memory.actions) else none
    iterations := horizon
    residual := none
    converged := true
    trace := BackwardInduction.trace w.journal }

end MarkovDecision
