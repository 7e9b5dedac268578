import MarkovDecision.Failure
import MarkovDecision.Literal.Tensor

namespace MarkovDecision

-- The weights of the actions of one state. Data of another shape is kept as it is; it has no
-- entry per action.
inductive Weights (α : Type) where
  | perAction (ps : List α)
  | other (t : Tensor α)

inductive Policy (α : Type) where
  | stationary (actions : Array Int)
  | markov (stages : Array (Array Int))
  | randomized (states : Array (Weights α))
  | markovRandomized (stages : Array (Array (Weights α)))
  | bare

namespace Weights

variable {α : Type}

def ofTensor (t : Tensor α) : Weights α :=
  match t.vector? with
  | some ps => perAction ps.toList
  | none => other t

def tensor : Weights α → Tensor α
  | perAction ps => .ofVector ps.toArray
  | other t => t

def cells (w : Weights α) : List α := w.tensor.cells.toList

def distribution [Scalar α] : Weights α → Outcome α (List (Int × α))
  | perAction ps =>
    .ok ((ps.zipIdx.filter fun (p, _) => Scalar.lt Scalar.zero p).map fun (p, a) => (Int.ofNat a, p))
  | other _ => .error .invalidInput

end Weights

namespace Policy

variable {α : Type}

def name : Policy α → String
  | stationary _ => "StationaryDeterministic"
  | markov _ => "MarkovDeterministic"
  | randomized _ => "StationaryRandomized"
  | markovRandomized _ => "MarkovRandomized"
  | bare => "Policy"

def isStationary : Policy α → Bool
  | markov _ | markovRandomized _ => false
  | _ => true

def isDeterministic : Policy α → Bool
  | randomized _ | markovRandomized _ => false
  | _ => true

def length? : Policy α → Option Nat
  | stationary actions => some actions.size
  | markov stages => some stages.size
  | randomized states => some states.size
  | markovRandomized stages => some stages.size
  | bare => none

def stage (p : Policy α) (t : Int) : Outcome α (Policy α) :=
  match p with
  | markov stages => do return stationary (← entry stages t)
  | markovRandomized stages => do return randomized (← entry stages t)
  | _ => .error .invalidInput

def action (p : Policy α) (s t : Int) : Outcome α (Option Int) :=
  match p with
  | stationary actions => do return some (← entry actions s)
  | markov stages => do return some (← entry (← entry stages t) s)
  | randomized _ | markovRandomized _ => .error .randomizedPolicy
  | bare => .ok none

def distribution? [Scalar α] (p : Policy α) (s t : Int) : Outcome α (Option (List (Int × α))) :=
  match p with
  | stationary actions => do return some [(← entry actions s, Scalar.one)]
  | markov stages => do return some [(← entry (← entry stages t) s, Scalar.one)]
  | randomized states => do return some (← (← entry states s).distribution)
  | markovRandomized stages => do return some (← (← entry (← entry stages t) s).distribution)
  | bare => .ok none

def distribution [Scalar α] (p : Policy α) (s t : Int) : Outcome α (List (Int × α)) := do
  match ← p.distribution? s t with
  | some choices => return choices
  | none => throw .invalidInput

-- Only stationary deterministic policies are ever equal.
def sameAs : Policy α → Policy α → Bool
  | stationary a, stationary b => a == b
  | _, _ => false

def text? : Policy α → Option String
  | stationary actions =>
    some ("StationaryDeterministic([" ++ ", ".intercalate (actions.toList.map Literal.intText) ++ "])")
  | _ => none

end Policy

inductive PolicyData (α : Type) where
  | policy (p : Policy α)
  | bare (l : Literal)
  | array (cells : Tensor Int)

namespace PolicyData

variable {α : Type}

def ofArray (t : Tensor Int) (typeName : String) : Outcome α (Policy α) :=
  match t.vector?, t.rows? with
  | some actions, _ => .ok (.stationary actions)
  | _, some stages => .ok (.markov stages)
  | _, _ => .error (.policyUnsupported typeName)

def resolve : PolicyData α → Outcome α (Policy α)
  | policy p => .ok p
  | array cells => ofArray cells "ndarray"
  | bare l => do
    let t ← Outcome.ofOption l.tensor?
    if t.shape.length == 1 || t.shape.length == 2 then
      ofArray (← Outcome.ofOption (Literal.widenedInts? t)) l.typeName
    else throw (.policyUnsupported l.typeName)

end PolicyData

namespace Policy

def readRandomized (l : Literal) : Outcome Float (Array (Weights Float)) := do
  let states ← Outcome.ofOption l.items?
  let states ← states.mapM fun p => do
    return Weights.ofTensor (← Outcome.ofOption p.reals?)
  return states.toArray

def readMarkovRandomized (l : Literal) : Outcome Float (Policy Float) := do
  let stages ← Outcome.ofOption l.items?
  let stages ← stages.mapM readRandomized
  return markovRandomized stages.toArray

end Policy

end MarkovDecision
