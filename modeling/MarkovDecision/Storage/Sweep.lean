import MarkovDecision.Bellman.Sweep
import MarkovDecision.Storage.Basic

namespace MarkovDecision

variable {α : Type} [Scalar α]

namespace Storage

def checkedMemory (values outValues outActions : View) : SweepMemory (Storage α) α where
  value m := m.read values
  putValue s x m := m.write outValues s x
  putAction s a m := m.writeWhole outActions s a

def rawMemory (source : Storage α → Reader α) (outValues outActions : View) :
    SweepMemory (Storage α) α where
  value := source
  putValue s x m := .ok (m.store outValues s x)
  putAction s a m := .ok (m.storeWhole outActions s a)

-- Views may overlap. A pass over flat arrays sees its own earlier writes unless the values have to
-- be converted to reals first, which copies them.
def realSource (before : Storage α) (values : View) : Storage α → Reader α :=
  if before.isWhole values then fun _ => before.read values else fun m => m.read values

def areVectors (views : List View) : Bool := views.all View.isVector

def flatSweep (m : FlatModel α) (discount : α) (values outValues outActions : View) :
    InPlace (Storage α) α Unit := do
  if !areVectors [values, outValues, outActions] then throw .invalidInput
  let before ← get
  (rawMemory (before.realSource values) outValues outActions).flatSweep m discount

def bellmanSweep (m : Model α) (goal : Goal α) (schedule : Schedule)
    (values outValues outActions : View) : InPlace (Storage α) α Unit :=
  match m with
  | .table _ => (checkedMemory values outValues outActions).bellmanSweep m goal schedule
  | .flat flat => do
    let discount ← InPlace.lift goal.discount
    flatSweep flat discount values outValues outActions

def policySweep (m : Model α) (goal : Goal α) (t : Int) (policy : Policy α) (schedule : Schedule)
    (values outValues : View) : InPlace (Storage α) α Unit :=
  (checkedMemory values outValues outValues).policySweep m goal t policy schedule

def actionValues (m : Model α) (goal : Goal α) (s : Int) (values out : View) :
    InPlace (Storage α) α Unit := do
  let count ← InPlace.lift (m.positiveCount s)
  let held ← InPlace.lift (Outcome.ofOption out.length?)
  if held < count then throw (.actionValueBuffer held s count)
  (List.range count).forM fun (a : Nat) => do
    let now ← get
    let q ← InPlace.lift (m.actionValue goal s a (now.read values))
    InPlace.update fun now => now.write out a q
  let now ← get
  if now.isWhole out then throw .invalidInput
  (List.range (held - count)).forM fun (i : Nat) =>
    InPlace.update fun now => now.write out (count + i) Scalar.negInfinity

def greedyMemory (source : Storage α → Reader α) (putAction : Nat → Int → Storage α →
    Outcome α (Storage α)) : SweepMemory (Storage α) α where
  value := source
  putValue _ _ m := .ok m
  putAction := putAction

def greedy (m : Model α) (goal : Goal α) (values actions : View) : InPlace (Storage α) α Unit := do
  let held ← InPlace.lift (Outcome.ofOption actions.length?)
  if held != m.stateCount then throw (.actionBuffer held m.stateCount)
  let before ← get
  let source := before.realSource values
  match m with
  | .table _ =>
    (greedyMemory source fun s a m => m.writeWhole actions s a).bellmanSweep m goal .serial
  | .flat flat =>
    let discount ← InPlace.lift goal.discount
    if !areVectors [values, actions] then throw .invalidInput
    (greedyMemory source fun s a m => .ok (m.storeWhole actions s a)).flatSweep flat discount

end Storage

end MarkovDecision
