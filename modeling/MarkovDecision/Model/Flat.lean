import MarkovDecision.Model.Merge
import MarkovDecision.Model.Transition
import MarkovDecision.Number.Sum

namespace MarkovDecision

-- Pair k = stateOffsets[s] + a stands for action a of state s, and its outcomes are the positions
-- pairOffsets[k] to pairOffsets[k+1] of the three columns.
structure FlatModel (α : Type) where
  stateOffsets : Array Nat
  pairOffsets : Array Nat
  next : Array Int
  probability : Array α
  reward : Array α

structure ActionArrays (α : Type) where
  next : Tensor Int
  probability : Tensor α
  reward : Tensor α

namespace ActionArrays

variable {α : Type}

def ofColumns (c : Columns α) : ActionArrays α :=
  ⟨.ofVector c.next.toArray, .ofVector c.probability.toArray, .ofVector c.reward.toArray⟩

def areVectors (c : ActionArrays α) : Bool :=
  c.next.isVector && c.probability.isVector && c.reward.isVector

-- The common length of the arrays; the later ones are looked at only if the earlier ones agree.
def length (c : ActionArrays α) (s a : Nat) : Outcome α Nat := do
  let n ← Outcome.ofOption c.next.length?
  let m ← Outcome.ofOption c.probability.length?
  if n != m then throw (.transitionLengths s a)
  let k ← Outcome.ofOption c.reward.length?
  if m != k then throw (.transitionLengths s a)
  return n

def check [Scalar α] (c : ActionArrays α) (states : Nat) (tolerance : α) (s a : Nat) :
    Outcome α Unit := do
  let n ← c.length s a
  if n == 0 then throw (.noTransitions s a)
  if c.next.cells.any (fun i => i < 0 || (states : Int) ≤ i) then throw (.nextStateOutside s a)
  if c.probability.cells.any (fun p => Scalar.le p Scalar.zero)
      || c.probability.cells.any (fun p => Scalar.lt (Scalar.one + tolerance) p) then
    throw (.probabilityOutside s a)
  let total := Scalar.arraySum c.probability.cells.toList
  if Scalar.lt tolerance (Scalar.abs (total - Scalar.one)) then throw (.probabilitySum s a total)

end ActionArrays

def offsets (lengths : List Nat) : Array Nat :=
  lengths.foldl (fun (sums : Array Nat) n => sums.push (sums.back?.getD 0 + n)) #[0]

namespace FlatModel

variable {α : Type}

def stateCount (m : FlatModel α) : Nat := m.stateOffsets.size - 1

-- The difference of two neighbouring offsets, each found by counting from either end.
def actionCount (m : FlatModel α) (s : Int) : Outcome α Int := do
  let upper ← entry m.stateOffsets (s + 1)
  let lower ← entry m.stateOffsets s
  return (upper : Int) - lower

def columns (m : FlatModel α) (s a : Int) : Outcome α (Columns α) := do
  let count ← m.actionCount s
  if a < 0 || count ≤ a then throw (.actionIndex a s)
  let base ← entry m.stateOffsets s
  let k := (base : Int) + a
  let first ← entry m.pairOffsets k
  let last ← entry m.pairOffsets (k + 1)
  return {
    next := (m.next.extract first last).toList
    probability := (m.probability.extract first last).toList
    reward := (m.reward.extract first last).toList }

def transitions (m : FlatModel α) (s a : Int) : Outcome α (List (Transition α)) := do
  let c ← m.columns s a
  return (c.next.zip (c.probability.zip c.reward)).map fun (n, p, r) => ⟨.index n, .real p, .real r⟩

def expectedReward [Scalar α] (m : FlatModel α) : Array α :=
  (Array.range (m.pairOffsets.size - 1)).map fun k =>
    let first := m.pairOffsets.getD k 0
    let last := m.pairOffsets.getD (k + 1) 0
    (((m.probability.extract first last).toList.zip (m.reward.extract first last).toList).foldl
      (fun total (p, r) => total + p * r) Scalar.zero)

def readActions [Scalar α] (states : Nat) (tolerance : α) (s : Nat) :
    Nat → List (Outcome α (ActionArrays α)) → Outcome α (List (ActionArrays α))
  | _, [] => .ok []
  | a, given :: rest => do
    let c ← given
    c.check states tolerance s a
    let later ← readActions states tolerance s (a + 1) rest
    return c :: later

def readStates [Scalar α] (states : Nat) (tolerance : α) :
    Nat → List (Outcome α (List (Outcome α (ActionArrays α)))) →
    Outcome α (List (List (ActionArrays α)))
  | _, [] => .ok []
  | s, given :: rest => do
    let actions ← given
    if actions.isEmpty then throw (.stateWithoutActions s)
    let first ← readActions states tolerance s 0 actions
    let later ← readStates states tolerance (s + 1) rest
    return first :: later

def layout (states : List (List (ActionArrays α))) : FlatModel α :=
  let pairs := states.flatten
  { stateOffsets := offsets (states.map List.length)
    pairOffsets := offsets (pairs.map fun c => c.next.cells.size)
    next := (pairs.map fun c => c.next.cells).foldl (· ++ ·) #[]
    probability := (pairs.map fun c => c.probability.cells).foldl (· ++ ·) #[]
    reward := (pairs.map fun c => c.reward.cells).foldl (· ++ ·) #[] }

def build [Scalar α] (tolerance : α) (states : List (Outcome α (List (Outcome α (ActionArrays α))))) :
    Outcome α (FlatModel α) := do
  if states.isEmpty then throw .noStates
  let checked ← readStates states.length tolerance 0 states
  -- arrays of several axes cannot be laid out in one column
  if checked.all (fun actions => actions.all ActionArrays.areVectors) then return layout checked
  else throw .invalidInput

def defaultTolerance [Scalar α] : α := Scalar.tenth 6

end FlatModel

end MarkovDecision
