import MarkovDecision.InPlace
import MarkovDecision.LinearProgram.Call
import MarkovDecision.Objective
import MarkovDecision.Settings.Basic

namespace MarkovDecision

inductive Warning (α : Type) where
  | unstablePolicy (iterations : Nat)
  | residualAbove (iterations : Nat) (residual threshold : α)

inductive Event (α : Type) where
  -- `column` names what the rows show
  | opening (algorithm column : String) (objective : Objective α) (states : Nat)
  -- an opening that could not be written, since the length of a line is no whole number
  | brokenOpening
  | row (step : Nat) (value : Quantity α)
  | closing (converged : Bool)
  | warning (w : Warning α)
  -- the numbers of variables and constraints, as a backend counts them
  | programSize (unknowns constraints : Literal)
  | backendCall (c : BackendCall α)

abbrev Journal (α : Type) := Array (Event α)

namespace Journal

variable {α : Type}

def empty : Journal α := #[]

def rows (j : Journal α) : List (Nat × Quantity α) :=
  j.toList.filterMap fun
    | .row step value => some (step, value)
    | _ => none

def calls (j : Journal α) : List (BackendCall α) :=
  j.toList.filterMap fun
    | .backendCall c => some c
    | _ => none

def warnings (j : Journal α) : List (Warning α) :=
  j.toList.filterMap fun
    | .warning w => some w
    | _ => none

end Journal

abbrev Journaled (α β : Type) := InPlace (Journal α) α β

namespace Journaled

variable {α : Type}

def note (e : Event α) : Journaled α Unit := InPlace.update fun j => .ok (j.push e)

def call (c : BackendCall α) : Journaled α Unit := note (.backendCall c)

-- The opening needs a line length if it is to be printed.
def begin (settings : Settings α) (algorithm column : String) (objective : Objective α)
    (states : Nat) : Journaled α Unit := do
  if settings.verbose && settings.lineLength.isNone then
    note .brokenOpening
    throw .invalidInput
  note (.opening algorithm column objective states)

end Journaled

structure Trace (α : Type) where
  stepName : String
  valueName : String
  rows : List (Nat × Quantity α)

end MarkovDecision
