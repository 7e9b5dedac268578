import MarkovDecision.Description
import MarkovDecision.Journal.Text
import MarkovDecision.LinearProgram.Solve
import MarkovDecision.PolicyIteration
import MarkovDecision.Storage.Solvers
import MarkovDecision.ValueIteration.Basic

namespace MarkovDecision

structure Report (β : Type) where
  outcome : Outcome Float β
  output : String
  warnings : List String
  -- what a backend was called for
  calls : List (BackendCall Float)

namespace Report

variable {β : Type}

def refused (e : Failure Float) : Report β := ⟨.error e, "", [], []⟩

def ofJournal (outcome : Outcome Float β) (j : Journal Float) (settings : Settings Float) : Report β :=
  { outcome, output := j.text settings, warnings := j.warnings.map Warning.text, calls := j.calls }

def ofRun (settings : Settings Float) (x : Journaled Float β) : Report β :=
  let (outcome, j) := x.runOn Journal.empty
  ofJournal outcome j settings

-- The goal is resolved before the configuration is read. A run that is refused before it could
-- start says nothing.
def run (goal : Goal Float) (configuration : Literal)
    (body : Objective Float → Settings Float → Journaled Float β)
    (capacity : Nat := Tensor.usualCapacity) : Report β :=
  match (do return (← goal.resolve, ← Settings.read configuration capacity) : Outcome Float _) with
  | .error e => refused e
  | .ok (o, settings) => ofRun settings (body o settings)

end Report

def reportValueIteration (m : Model Float) (goal : Goal Float) (policy : Option (PolicyData Float))
    (terminal : Option (TerminalValue Float)) (configuration : Literal)
    (capacity : Nat := Tensor.usualCapacity) : Report (ValueIterationResult Float) :=
  Report.run goal configuration (fun o settings => valueIteration m o policy terminal settings) capacity

def reportPolicyIteration (m : Model Float) (goal : Goal Float) (initial : Option (PolicyData Float))
    (configuration : Literal) (sparse : Bool) : Report (PolicyIterationResult Float) :=
  Report.run goal configuration fun o settings => policyIteration m o initial settings sparse

def reportStoredValueIteration (m : Model Float) (goal : Goal Float)
    (policy : Option (PolicyData Float)) (terminal : TerminalValue Float) (configuration : Literal)
    (values actions : Option View) (memory : Storage Float) (capacity : Nat := Tensor.usualCapacity) :
    Report Unit × Storage Float :=
  match (do return (← goal.resolve, ← Settings.read configuration capacity) : Outcome Float _) with
  | .error e => (.refused e, memory)
  | .ok (o, settings) =>
    let (outcome, w) := (Storage.valueIteration m o policy terminal settings values actions).runOn
      ⟨memory, Journal.empty⟩
    (.ofJournal outcome w.journal settings, w.memory)

def reportProgram (m : Model Float) (goal : Goal Float) (backend : BackendRequest)
    (configuration : Literal) : Report (ProgramSolution Float) :=
  Report.run goal configuration fun o settings =>
    solveByProgram m o settings (backend.resolve settings)

def reportTransience (m : Model Float) (every : Bool) (backend : BackendRequest)
    (configuration : Literal) : Report Bool :=
  match Settings.read configuration with
  | .error e => .refused e
  | .ok settings =>
    let backend := backend.resolve settings
    .ofRun settings (if every then everyTransient m settings backend else someTransient m settings backend)

end MarkovDecision
