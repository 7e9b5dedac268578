import MarkovDecision.InPlace
import MarkovDecision.LinearProgram.Call
import MarkovDecision.Policy.Basic
import MarkovDecision.Storage.Basic

namespace MarkovDecision

-- A kept array is its view, so that a later operation works on the array itself; a kept
-- deterministic policy is a view of its actions.
inductive Kept where
  | plain (l : Literal)
  | view (v : View)
  -- a deterministic policy over the cells of a view
  | rules (v : View)
  | policy (p : Policy Float)
  | group (fields : List (String × Kept))

structure Workbench where
  memory : Storage Float
  kept : List (String × Kept)
  output : String
  warnings : List String
  calls : List (BackendCall Float)

abbrev Work := InPlace Workbench Float

namespace Kept

def nothing : Kept := .plain .null

def real (x : Float) : Kept := .plain (.real x)

def part? (m : Storage Float) (k : Kept) (name : String) : Option Kept :=
  match k with
  | .group fields =>
    match fields.find? (fun f => f.1 == name) with
    | some f => some f.2
    | none => (name.toInt?.bind (indexFrom fields.length)).bind fun i => (fields[i]?).map (·.2)
  | .view v =>
    (name.toInt?.bind v.row?).map fun row =>
      if row.shape.isEmpty then
        if m.isWhole row then .plain (.int ((m.wholes row).cells.getD 0 0))
        else real ((m.reals row).cells.getD 0 0)
      else .view row
  | .rules v => if name == "actions" then some (.view v) else none
  | .plain (.list items) =>
    (name.toInt?.bind (indexFrom items.length)).bind fun i => (items[i]?).map .plain
  | _ => none

end Kept

namespace Workbench

def empty : Workbench := ⟨Storage.empty, [], "", [], []⟩

def cleared (w : Workbench) : Workbench := { w with output := "", warnings := [], calls := [] }

def keep (w : Workbench) (name : String) (k : Kept) : Workbench := { w with kept := (name, k) :: w.kept }

end Workbench

namespace Work

def lift {β : Type} (x : Outcome Float β) : Work β := InPlace.lift x

def ofOption {β : Type} (x : Option β) : Work β := lift (Outcome.ofOption x)

def onMemory {β : Type} (x : InPlace (Storage Float) Float β) : Work β :=
  x.within (·.memory) fun memory w => { w with memory }

def allocate (f : Storage Float → View × Storage Float) : Work View := do
  let w ← get
  let (v, memory) := f w.memory
  set { w with memory }
  return v

def newReals (t : Tensor Float) : Work View := allocate (·.addReals t)

def newWholes (t : Tensor Int) : Work View := allocate (·.addWholes t)

def lookUp (path : String) : Work Kept := do
  let w ← get
  match path.splitOn "." with
  | [] => throw .invalidInput
  | name :: parts =>
    let start ← ofOption ((w.kept.find? (fun s => s.1 == name)).map (·.2))
    ofOption (parts.foldlM (fun k part => Kept.part? w.memory k part) start)

end Work

end MarkovDecision
