import MarkovDecision.Description
import MarkovDecision.ValueIteration.Terminal
import MarkovDecision.Workbench.Basic

namespace MarkovDecision

def Literal.path? : Literal → Option String
  | .record [("ref", .text path)] => some path
  | _ => none

inductive PolicySource where
  | rules (v : View)
  | policy (p : Policy Float)
  | array (v : View)
  | bare (l : Literal)

namespace Work

def resolve (l : Literal) : Work Kept :=
  match l.path? with
  | some path => lookUp path
  | none => return .plain l.withSpecials

def argument (fields : Literal) (name : String) : Work Kept := resolve (fields.get name)

def plain (fields : Literal) (name : String) : Work Literal := do
  match ← argument fields name with
  | .plain l => return l
  | _ => throw .invalidInput

def verbatim (fields : Literal) (name : String) : Work Literal := do
  let l := fields.get name
  if l.path?.isSome then plain fields name else return l

def asReals : Kept → Work View
  | .plain l => do newReals (← ofOption l.reals?)
  | .view v => return v
  | _ => throw .invalidInput

def asWholes : Kept → Work View
  | .plain l => do newWholes (← ofOption l.ints?)
  | .view v => return v
  | _ => throw .invalidInput

def reals (fields : Literal) (name : String) : Work View := do asReals (← argument fields name)

def wholes (fields : Literal) (name : String) : Work View := do asWholes (← argument fields name)

def optional (read : Kept → Work View) (fields : Literal) (name : String) : Work (Option View) := do
  match ← argument fields name with
  | .plain .null => return none
  | k => return some (← read k)

def realsOrZeros (fields : Literal) (name : String) (n : Nat) : Work View := do
  match ← optional asReals fields name with
  | some v => return v
  | none => newReals (.ofVector (Array.replicate n 0))

def wholesOrZeros (fields : Literal) (name : String) (n : Nat) : Work View := do
  match ← optional asWholes fields name with
  | some v => return v
  | none => newWholes (.ofVector (Array.replicate n 0))

def indexOf : Literal → Work Int
  | .real _ => throw .index
  | l => ofOption l.whole?

def index (fields : Literal) (name : String) : Work Int := do indexOf (← plain fields name)

def stage (fields : Literal) : Work Int := do
  match ← plain fields "t" with
  | .null => return 0
  | l => indexOf l

def model (fields : Literal) : Work (Model Float) := lift (Model.read (fields.get "model"))

def goal (fields : Literal) : Work (Goal Float) := lift (Goal.read (fields.get "objective"))

def sharedRules (axes : Nat) (otherwise : Failure Float) (l : Literal) : Work PolicySource := do
  let v ← asWholes (← resolve l)
  if v.shape.length != axes then throw otherwise
  let w ← get
  return .rules (← if w.memory.isWhole v then pure v else newWholes (w.memory.wholes v))

def policySource (k : Kept) : Work PolicySource := do
  match k with
  | .rules v => return .rules v
  | .policy p => return .policy p
  | .view v => return .array v
  | .group _ => throw .invalidInput
  | .plain l =>
    match l.textOf kindField with
    | "sd" => sharedRules 1 .policyNotVector (l.get "actions")
    | "md" => sharedRules 2 .policyNotMatrix (l.get "actions")
    | "sr" => return .policy (.randomized (← lift (Policy.readRandomized (l.get "probabilities").withSpecials)))
    | "mr" => return .policy (← lift (Policy.readMarkovRandomized (l.get "probabilities").withSpecials))
    | "base" => return .policy .bare
    | _ => return .bare l

def rulesPolicy (v : View) : Work (Policy Float) := do
  let t := (← get).memory.wholes v
  match t.rows? with
  | some stages => return .markov stages
  | none => return .stationary t.cells

def policyData : PolicySource → Work (PolicyData Float)
  | .rules v => do return .policy (← rulesPolicy v)
  | .policy p => return .policy p
  | .array v => do return .array ((← get).memory.wholes v)
  | .bare l => return .bare l

def policy (fields : Literal) (name : String) : Work PolicySource := do
  policySource (← argument fields name)

def data (fields : Literal) (name : String) : Work (PolicyData Float) := do
  policyData (← policy fields name)

def optionalData (fields : Literal) (name : String) : Work (Option (PolicyData Float)) := do
  match ← argument fields name with
  | .plain .null => return none
  | k => return some (← policyData (← policySource k))

def keepPolicy (p : Policy Float) : Work Kept := do
  match p with
  | .stationary actions => return .rules (← newWholes (.ofVector actions))
  | .markov stages =>
    let width := (stages[0]?.map Array.size).getD 0
    return .rules (← newWholes (.ofRows width stages))
  | p => return .policy p

def keepSource (source : PolicySource) (p : Policy Float) : Work Kept := do
  match source with
  | .rules v => return .rules v
  | .array v => if (← get).memory.isWhole v then return .rules v else keepPolicy p
  | _ => keepPolicy p

def terminal (fields : Literal) (name : String) : Work (Option (TerminalValue Float)) := do
  match ← argument fields name with
  | .plain .null => return none
  | .plain l => return some (.read l)
  | .view v => return some (.array (.ok ((← get).memory.reals v)))
  | _ => return some (.array (.error .invalidInput))

end Work

end MarkovDecision
