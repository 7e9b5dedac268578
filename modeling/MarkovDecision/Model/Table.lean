import MarkovDecision.Model.Transition

namespace MarkovDecision

-- Nothing is checked when a table is made. An action whose outcomes could not be read keeps the
-- reason and hands it out when it is asked for.
structure Table (α : Type) where
  states : Array (Array (Outcome α (List (Transition α))))

namespace Table

variable {α : Type}

def stateCount (t : Table α) : Nat := t.states.size

def actionCount (t : Table α) (s : Int) : Outcome α Int := do
  let actions ← entry t.states s
  return actions.size

def transitions (t : Table α) (s a : Int) : Outcome α (List (Transition α)) := do
  let actions ← entry t.states s
  let outcomes ← entry actions a
  outcomes

end Table

end MarkovDecision
