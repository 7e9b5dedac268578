import MarkovDecision.Settings.Fields
import MarkovDecision.Tensor

namespace MarkovDecision

inductive StopRule where
  | supremum
  | span
  deriving DecidableEq

-- What a backend is told. The values are the backend's to judge.
structure BackendSettings where
  solver : Literal
  method : Literal
  feasibility : Literal
  optimality : Literal
  seed : Literal
  threads : Option Literal

structure Settings (α : Type) where
  iterations : Nat
  epsilon : Quantity α
  stopRule : StopRule
  parallel : Bool
  -- unknown unless it was given
  workers : Option Int
  -- the most cells that can be set aside at once
  capacity : Nat
  verbose : Bool
  -- none if the length of a printed line is no whole number, or beyond what can be printed
  lineLength : Option Int
  -- none if it is no number
  bindingTolerance : Option α
  backend : BackendSettings

namespace Settings

def field (fields : List (String × Literal)) (name : String) : Literal :=
  ((fields.find? (fun f => f.1 == name)).map (·.2)).getD .null

def ofFields (fields : List (String × Literal)) (capacity : Nat) : Settings Float :=
  let look := field fields
  { iterations := ((look "iterations").whole?.getD 1).toNat
    epsilon := ((look "epsilon").quantity?).getD (.real 0)
    stopRule := match look "stop_rule" with
      | .text s => if s == spanName then .span else .supremum
      | _ => .supremum
    parallel := (look "parallel").truthy
    workers := (look "num_cpu_core").whole?
    capacity
    verbose := (look "verbose").truthy
    lineLength := (look "print_len").whole?.filter fun n => Tensor.fits capacity [n.natAbs]
    bindingTolerance := (look "binding_tol").quantity?.bind (·.value?)
    backend := {
      solver := look "solver_name"
      method := look "lp_method"
      feasibility := look "feasibility_tol"
      optimality := look "optimality_tol"
      seed := look "seed"
      threads := match look "num_cpu_core" with
        | .null => none
        | l => some l } }

def read (given : Literal) (capacity : Nat := Tensor.usualCapacity) : Outcome Float (Settings Float) := do
  return ofFields (← completeFields given) capacity

end Settings

end MarkovDecision
