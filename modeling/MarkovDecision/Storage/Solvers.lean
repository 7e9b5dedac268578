import MarkovDecision.RewardProcess
import MarkovDecision.Storage.Sweep
import MarkovDecision.ValueIteration.Backward

namespace MarkovDecision

variable {α : Type} [Scalar α]

namespace Storage

def rewardProcess (m : Model α) (policy : PolicyData α) (transition reward : View) :
    InPlace (Storage α) α Unit := do
  let n := m.stateCount
  if transition.shape != [n, n] || reward.shape != [n] then throw (.rewardProcessBuffers n)
  let process ← InPlace.lift (RewardProcess.ofPolicy m policy)
  InPlace.update fun now => .ok (now.fill transition (process.transition.toList.flatMap Array.toList))
  InPlace.update fun now => .ok (now.fill reward process.reward.toList)

-- The rows of two matrices as the memory of backward induction. The view of a missing row has no
-- cells.
def rowOf (v : View) (t : Nat) : View := (v.row? t).getD ⟨v.buffer, 0, [0]⟩

def stageMemory (m : Model α) (optimise : Bool) (horizon : Nat) (values actions : View) :
    StageMemory (Storage α) α where
  stage t :=
    match m, optimise with
    | .flat _, true =>
      rawMemory (fun now => now.read (rowOf values (t + 1))) (rowOf values t) (rowOf actions t)
    | _, _ => checkedMemory (rowOf values (t + 1)) (rowOf values t) (rowOf actions t)
  row t now := (now.reals (rowOf values t)).cells.toList
  putTerminal w now := now.fill (rowOf values horizon) w.toList

def stagePolicy (m : Model α) (horizon : Nat) (policy : Option (PolicyData α))
    (actions : Option View) : Outcome α (Option (Policy α)) :=
  match policy with
  | some given => do
    return some (← given.validate m (some (.int horizon)))
  | none =>
    if actions.map View.shape == some [horizon, m.stateCount] then .ok none
    else .error (.policyBuffer horizon m.stateCount)

-- Value iteration over finitely many stages. Either buffer may be missing; the one for actions is
-- needed only if there is no policy.
def valueIteration (m : Model α) (o : Objective α) (policy : Option (PolicyData α))
    (terminal : TerminalValue α) (settings : Settings α) (values actions : Option View) :
    InPlace (Workspace (Storage α) α) α Unit := do
  match o with
  | .finite _ horizon =>
    let n := m.stateCount
    match values with
    | none => throw (.valueBuffer (horizon + 1) n)
    | some v =>
      if v.shape != [horizon + 1, n] then throw (.valueBuffer (horizon + 1) n)
      let policy ← InPlace.lift (stagePolicy m horizon policy actions)
      let pi := actions.getD ⟨v.buffer, 0, [0]⟩
      BackwardInduction.run (stageMemory m policy.isNone horizon v pi) m o horizon policy terminal settings
  | _ => throw .inPlaceObjective

end Storage

end MarkovDecision
