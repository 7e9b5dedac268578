import MarkovDecision.Bellman.Operator
import MarkovDecision.InPlace
import MarkovDecision.Tensor

namespace MarkovDecision

variable {α : Type} [Scalar α]

structure SweepMemory (σ α : Type) where
  value : σ → Reader α
  putValue : Nat → α → σ → Outcome α σ
  putAction : Nat → Int → σ → Outcome α σ

inductive Schedule where
  | serial
  | chunked (count : Int) (capacity : Nat := Tensor.usualCapacity)

namespace Schedule

variable {α : Type}

def chunkLengths (n count : Nat) : List Nat :=
  (List.range count).map fun i => if i < n % count then n / count + 1 else n / count

def cut : List Nat → List Nat → List (List Nat)
  | [], _ => []
  | n :: rest, states => states.take n :: cut rest (states.drop n)

-- The states 0 to n-1 in chunks; there is always at least one chunk. Beyond one chunk per state
-- all others are empty, and a list of chunks has to be set aside like any array.
def chunks (s : Schedule) (n : Nat) : Outcome α (List (List Nat)) :=
  match s with
  | serial => .ok [List.range n]
  | chunked count capacity =>
    let count := (max 1 count).toNat
    if Tensor.fits capacity [count] then .ok (cut (chunkLengths n (min count (n + 1))) (List.range n))
    else .error .invalidInput

end Schedule

variable {σ : Type}

-- Every chunk stops at its first failure and the others go on; what is reported is the failure of
-- the first failed chunk. What was written before a failure stays written.
def runChunks (step : Nat → InPlace σ α Unit) (chunks : List (List Nat)) : InPlace σ α Unit := do
  let failures ← chunks.mapM fun chunk => InPlace.attempt (chunk.forM step)
  match failures.findSome? id with
  | some e => throw e
  | none => pure ()

namespace SweepMemory

def write (mem : SweepMemory σ α) (s : Nat) (choice : Choice α) : InPlace σ α Unit := do
  InPlace.update (mem.putValue s choice.1)
  InPlace.update (mem.putAction s choice.2)

def bellmanStep (mem : SweepMemory σ α) (t : Table α) (goal : Goal α) (s : Nat) :
    InPlace σ α Unit := do
  let memory ← get
  let choice ← InPlace.lift ((Model.table t).greedyChoice goal s (mem.value memory))
  mem.write s choice

def flatStep (mem : SweepMemory σ α) (m : FlatModel α) (discount : α) (s : Nat) :
    InPlace σ α Unit := do
  let memory ← get
  let choice ← InPlace.lift (m.greedyChoice discount s (mem.value memory))
  mem.write s choice

def policyStep (mem : SweepMemory σ α) (m : Model α) (goal : Goal α) (t : Int) (policy : Policy α)
    (s : Nat) : InPlace σ α Unit := do
  let memory ← get
  let value ← InPlace.lift (m.policyValue goal t s policy (mem.value memory))
  InPlace.update (mem.putValue s value)

def flatSweep (mem : SweepMemory σ α) (m : FlatModel α) (discount : α) : InPlace σ α Unit :=
  (List.range m.stateCount).forM (mem.flatStep m discount)

def bellmanSweep (mem : SweepMemory σ α) (m : Model α) (goal : Goal α) (schedule : Schedule) :
    InPlace σ α Unit :=
  match m with
  | .flat flat => do
    let discount ← InPlace.lift goal.discount
    mem.flatSweep flat discount
  | .table t => do
    let chunks ← InPlace.lift (schedule.chunks t.stateCount)
    runChunks (mem.bellmanStep t goal) chunks

def policySweep (mem : SweepMemory σ α) (m : Model α) (goal : Goal α) (t : Int)
    (policy : Policy α) (schedule : Schedule) : InPlace σ α Unit := do
  let chunks ← InPlace.lift (schedule.chunks m.stateCount)
  runChunks (mem.policyStep m goal t policy) chunks

end SweepMemory

structure SweepBuffers (α : Type) where
  values : Array α
  actions : Array Int

namespace SweepBuffers

def zeros (n : Nat) : SweepBuffers α := ⟨Array.replicate n Scalar.zero, Array.replicate n 0⟩

def memory (v : Array α) : SweepMemory (SweepBuffers α) α where
  value _ := Reader.ofArray v
  putValue s x b :=
    if s < b.values.size then .ok { b with values := b.values.setIfInBounds s x } else .error .index
  putAction s a b :=
    if s < b.actions.size then .ok { b with actions := b.actions.setIfInBounds s a } else .error .index

end SweepBuffers

def Model.bellman (m : Model α) (goal : Goal α) (v : Array α) (schedule : Schedule) :
    Outcome α (SweepBuffers α) :=
  ((SweepBuffers.memory v).bellmanSweep m goal schedule).result (.zeros m.stateCount)

def Model.followed (m : Model α) (goal : Goal α) (t : Int) (v : Array α) (policy : Policy α)
    (schedule : Schedule) : Outcome α (Array α) := do
  let buffers ← ((SweepBuffers.memory v).policySweep m goal t policy schedule).result
    (.zeros m.stateCount)
  return buffers.values

def Model.greedy (m : Model α) (goal : Goal α) (v : Array α) : Outcome α (Policy α) := do
  return .stationary (← m.bellman goal v .serial).actions

end MarkovDecision
