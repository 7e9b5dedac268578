import MarkovDecision.Literal.Text

namespace MarkovDecision

inductive Failure (α : Type) where
  -- a transition structure that cannot be accepted
  | noStates
  | stateWithoutActions (s : Nat)
  | transitionLengths (s a : Nat)
  | noTransitions (s a : Nat)
  | nextStateOutside (s a : Nat)
  | probabilityOutside (s a : Nat)
  | probabilitySum (s a : Nat) (sum : α)
  | matrixCounts
  | matrixShape
  | rewardShape (shape : List Nat) (states : Nat)
  | mergeLengths
  | repeatedTransition (s a : Int) (next : Literal)
  -- an objective, policy, buffer or setting that cannot be used
  | discountNotReal
  | discountOutside (given : Quantity α) (closed : Bool)
  | horizonNotPositive (given : Literal)
  | objectiveUnsupported (typeName : String)
  | policyUnsupported (typeName : String)
  | policyNotVector
  | policyNotMatrix
  | randomizedPolicy
  | policyStages (stages : Nat) (horizon : Literal)
  | policyStates (covered states : Nat)
  | actionNotValid (a s : Int)
  | distributionNotValid (s : Nat)
  | actionValueBuffer (held : Nat) (s actions : Int)
  | actionBuffer (held states : Nat)
  | rewardProcessBuffers (states : Nat)
  | rewardProcessStationary
  | initialPolicyKind
  | policyIterationObjective
  | terminalShape (shape : List Nat) (states : Nat)
  | inPlaceObjective
  | valueBuffer (rows states : Nat)
  | policyBuffer (rows states : Nat)
  | terminalNotApplicable
  | stationaryOnly
  | totalRewardIteration
  | finiteProgram
  | backendNotUsable (given : Literal)
  | settingUnknown (key : String)
  | settingsNotRecord
  | iterationCap
  | toleranceNotPositive
  | stopRuleUnknown (given : Literal)
  | workerCount
  -- a state that offers no action
  | emptyActionSet (s : Int)
  -- a backend that reported no optimum; `withheld` marks a message that is not ours to repeat
  | notOptimal (status : Literal) (message : Literal) (withheld : Bool)
  -- an index outside its range
  | index
  | actionIndex (a s : Int)
  -- a linear system without unique solution
  | singular
  -- data that has no meaning for the operation
  | invalidInput

inductive FailureKind where
  | structural
  | configuration
  | emptyActionSet
  | solver
  | index
  | singular
  | invalidInput
  deriving DecidableEq

namespace Failure

variable {α : Type}

def kind : Failure α → FailureKind
  | noStates | stateWithoutActions _ | transitionLengths _ _ | noTransitions _ _
  | nextStateOutside _ _ | probabilityOutside _ _ | probabilitySum _ _ _ | matrixCounts
  | matrixShape | rewardShape _ _ | mergeLengths | repeatedTransition _ _ _ => .structural
  | emptyActionSet _ => .emptyActionSet
  | notOptimal _ _ _ => .solver
  | index | actionIndex _ _ => .index
  | singular => .singular
  | invalidInput => .invalidInput
  | _ => .configuration

def solverText (status message : Literal) : String :=
  let text := "LP backend returned status " ++ status.display ++ "."
  if message.truthy then text ++ " " ++ message.display else text

def natText (n : Nat) : String := Literal.intText n

def pairText (s a : Nat) : String := "(" ++ natText s ++ "," ++ natText a ++ ")"

-- The text that goes with a failure; malformed data, plain index failures and singular systems
-- have none.
def message (f : Failure Float) : Option String :=
  match f with
  | noStates => "A tabular MDP needs at least one state."
  | stateWithoutActions s => "State " ++ natText s ++ " has no actions."
  | transitionLengths s a => "Transition arrays of " ++ pairText s a ++ " differ in length."
  | noTransitions s a => "Action " ++ natText a ++ " of state " ++ natText s ++ " has no transitions."
  | nextStateOutside s a => "Next state of " ++ pairText s a ++ " is out of range."
  | probabilityOutside s a => "Probabilities of " ++ pairText s a ++ " must lie in (0,1]."
  | probabilitySum s a sum =>
    "Probabilities of " ++ pairText s a ++ " sum to " ++ Shortest.text sum ++ "."
  | matrixCounts => "Need the same positive number of transition and reward arrays."
  | matrixShape => "Transition matrices must be square and of equal size."
  | rewardShape shape states =>
    "Reward of shape " ++ shapeText shape ++ " does not match " ++ natText states ++ " states."
  | mergeLengths => "Next states, probabilities, and rewards must have the same length."
  | repeatedTransition s a next =>
    "Transition (" ++ Literal.intText s ++ "," ++ Literal.intText a ++ ") -> " ++ next.display
      ++ " is listed more than once; compress the model first."
  | discountNotReal => "Discount factor must be a real number."
  | discountOutside given closed =>
    "Discount factor " ++ given.text ++ " is not in " ++ (if closed then "[0,1]" else "[0,1)") ++ "."
  | horizonNotPositive given => "Horizon must be a positive integer, got " ++ given.display ++ "."
  | objectiveUnsupported typeName => "Objective of type (" ++ typeName ++ ") is not implemented!"
  | policyUnsupported typeName => "Policy of type (" ++ typeName ++ ") is not implemented!"
  | policyNotVector => "Stationary deterministic policy must be a vector of actions."
  | policyNotMatrix => "Markov deterministic policy must be a (horizon, states) array."
  | randomizedPolicy =>
    "A randomized policy has no single action; use get_action_distribution."
  | policyStages stages horizon =>
    "Policy covers " ++ natText stages ++ " stages, horizon is " ++ horizon.display ++ "."
  | policyStates covered states =>
    "Policy covers " ++ natText covered ++ " states, model has " ++ natText states ++ "."
  | actionNotValid a s | actionIndex a s =>
    "Action " ++ Literal.intText a ++ " is not valid in state " ++ Literal.intText s ++ "."
  | distributionNotValid s => "Action distribution of state " ++ natText s ++ " is not valid."
  | actionValueBuffer held s actions =>
    "Q-value buffer holds " ++ natText held ++ " entries, state " ++ Literal.intText s ++ " has "
      ++ Literal.intText actions ++ " actions."
  | actionBuffer held states =>
    "Policy buffer holds " ++ natText held ++ " entries, model has " ++ natText states ++ " states."
  | rewardProcessBuffers n =>
    "MRP buffers must have shapes (" ++ natText n ++ "," ++ natText n ++ ") and (" ++ natText n ++ ",)."
  | rewardProcessStationary => "A Markov reward process needs a stationary policy."
  | initialPolicyKind => "Policy iteration starts from a stationary deterministic policy."
  | policyIterationObjective =>
    "Policy iteration supports only the infinite-horizon discounted objective."
  | terminalShape shape states =>
    "Terminal value has shape " ++ shapeText shape ++ ", model has " ++ natText states ++ " states."
  | inPlaceObjective => "In-place value iteration supports only the finite-horizon objective."
  | valueBuffer rows states =>
    "Value buffer must be an array of shape " ++ shapeText [rows, states] ++ "."
  | policyBuffer rows states =>
    "Policy buffer must be an array of shape " ++ shapeText [rows, states] ++ "."
  | terminalNotApplicable => "A terminal value applies only to the finite-horizon objective."
  | stationaryOnly => "The infinite-horizon objective evaluates only stationary policies."
  | totalRewardIteration =>
    "Value iteration does not support the total reward objective; use LP.LPSolver.lp_solve."
  | finiteProgram =>
    "The LP solve does not support the finite-horizon objective; use value iteration."
  | backendNotUsable given => "LP backend must be a wrapper class, got " ++ given.display
  | settingUnknown key => "Unknown solver configuration key: " ++ key
  | settingsNotRecord => "Solver configuration must be a dict."
  | iterationCap => "Iteration cap must be a positive integer."
  | toleranceNotPositive => "Convergence tolerance epsilon must be positive."
  | stopRuleUnknown given => "Stop rule " ++ given.display ++ " is not implemented!"
  | workerCount => "Number of CPU cores must be a positive integer."
  | emptyActionSet s => "State " ++ Literal.intText s ++ " has no actions."
  | notOptimal status message withheld => if withheld then none else solverText status message
  | index | singular | invalidInput => none

end Failure

abbrev Outcome (α β : Type) := Except (Failure α) β

def Outcome.ofOption {α β : Type} (x : Option β) : Outcome α β :=
  match x with
  | some b => .ok b
  | none => .error .invalidInput

def indexFrom (size : Nat) (i : Int) : Option Nat :=
  if 0 ≤ i then (if i < size then some i.toNat else none)
  else if -(size : Int) ≤ i then some (i + size).toNat else none

def entry {α β : Type} (xs : Array β) (i : Int) : Outcome α β :=
  match (indexFrom xs.size i).bind (xs[·]?) with
  | some x => .ok x
  | none => .error .index

end MarkovDecision
