import MarkovDecision.LinearProgram.Assembly
import MarkovDecision.LinearProgram.Recovery

namespace MarkovDecision

variable {α : Type}

structure BackendReport (α : Type) where
  status : Literal
  -- the message of the backend, and whether it is kept out of texts of our own
  message : Literal
  withheld : Bool
  solution : Outcome α (Tensor α)
  multipliers : Outcome α (Multipliers α)
  value : Outcome α α

structure Backend (α : Type) where
  accepts : BackendSettings → Outcome α Unit
  -- the numbers of variables and constraints
  size : LinearProgram α → Outcome α (Literal × Literal)
  solve : BackendSettings → Direction → LinearProgram α → Outcome α (BackendReport α)

namespace BackendReport

def isOptimal (r : BackendReport α) : Bool := r.status.sameLabel (.text ProgramOutcome.optimalName)

def ofOutcome (outcome : ProgramOutcome α) (message : Literal) : BackendReport α :=
  let status := Literal.text outcome.name
  match outcome with
  | .optimal solution value multipliers =>
    { status, message
      withheld := false
      solution := .ok (.ofVector solution.toArray)
      multipliers := .ok (some (.ofVector multipliers.toArray))
      value := .ok value }
  | _ =>
    { status, message
      withheld := false
      solution := .error .invalidInput
      multipliers := .error .invalidInput
      value := .error .invalidInput }

def ofDeferred [Scalar α] (p : DeferredProgram α) (message : Literal) (withheld : Bool) :
    Outcome α (BackendReport α) := do
  return {
    status := .text (← p.status)
    message
    withheld
    solution := p.solution.map fun xs => .ofVector xs.toArray
    multipliers := p.multipliers.map fun ys => some (.ofVector ys.toArray)
    value := p.value }

end BackendReport

namespace Backend

def countOf (p : LinearProgram α) : Outcome α (Literal × Literal) :=
  .ok (.int p.bounds.length, .int p.constraints.length)

def deferred [Scalar α] (solver : ProgramSolver α) (message : Literal) (withheld : Bool) : Backend α where
  accepts _ := .ok ()
  size := countOf
  solve settings direction p := do
    let done ← (DeferredProgram.ofProgram p direction).optimize (SolverCall.checked settings solver)
    BackendReport.ofDeferred done message withheld

def immediate [Scalar α] (solver : ProgramSolver α) : Backend α where
  accepts := ImmediateProgram.accepts
  size := countOf
  solve _ direction p := .ok (.ofOutcome ((solver (p.towards direction)).signed direction) .null)

def silent : Backend α where
  accepts _ := .ok ()
  size _ := .error .invalidInput
  solve _ _ _ := .ok {
    status := .null
    message := .null
    withheld := false
    solution := .error .invalidInput
    multipliers := .ok none
    value := .error .invalidInput }

structure Script where
  status : Literal
  message : Literal
  solution : Literal
  multipliers : Literal
  value : Literal
  size : Literal

namespace Script

def readArray (l : Literal) : Outcome Float (Option (Tensor Float)) :=
  match l with
  | .null => .ok none
  | l => (Outcome.ofOption l.reals?).map some

def readValue (l : Literal) : Outcome Float Float :=
  match l with
  | .null => .error .invalidInput
  | l => Outcome.ofOption l.cellReal?

def noSize : Literal := .list [.int 0, .int 0]

def readSize (l : Literal) : Outcome Float (Literal × Literal) :=
  match l.parts? with
  | some [n, m] => .ok (n, m)
  | _ => .error .invalidInput

end Script

def scripted (s : Script) : Backend Float where
  accepts _ := .ok ()
  size _ := Script.readSize s.size
  solve _ _ _ := .ok {
    status := s.status
    message := s.message
    withheld := false
    solution := Outcome.ofOption s.solution.reals?
    multipliers := Script.readArray s.multipliers
    value := Script.readValue s.value }

end Backend

inductive BackendChoice (α : Type) where
  | backend (b : Backend α)
  | other (l : Literal)

namespace BackendChoice

def resolve (choice : BackendChoice α) (settings : BackendSettings) : Outcome α (Backend α) :=
  match choice with
  | .backend b => do
    b.accepts settings
    return b
  | .other l => .error (.backendNotUsable l)

end BackendChoice

end MarkovDecision
