namespace MarkovDecision

structure Tensor (β : Type) where
  shape : List Nat
  cells : Array β

namespace Tensor

variable {β : Type}

def volume (shape : List Nat) : Nat := shape.foldl (· * ·) 1

-- The most cells that can be set aside at once, if nothing else is said. What is proved holds of any
-- other number as well.
def usualCapacity : Nat := 1073741824

def addresses : Nat := 1152921504606846975

-- Can an array of this shape be set aside? Where an axis has length zero there are no cells, but the
-- axes before it still have entries, and the other axes still need addresses.
def fits (capacity : Nat) (shape : List Nat) : Bool :=
  volume (shape.takeWhile (· != 0)) ≤ capacity && volume (shape.filter (· != 0)) ≤ addresses

def ofVector (xs : Array β) : Tensor β := ⟨[xs.size], xs⟩

def scalar (x : β) : Tensor β := ⟨[], #[x]⟩

def length? (t : Tensor β) : Option Nat := t.shape.head?

def isVector (t : Tensor β) : Bool := t.shape.length == 1

def vector? (t : Tensor β) : Option (Array β) := if t.isVector then some t.cells else none

def rows? (t : Tensor β) : Option (Array (Array β)) :=
  match t.shape with
  | [n, m] => some ((Array.range n).map fun i => t.cells.extract (i * m) (i * m + m))
  | _ => none

def ofRows (width : Nat) (rows : Array (Array β)) : Tensor β :=
  ⟨[rows.size, width], rows.foldl (· ++ ·) #[]⟩

def between (t : Tensor β) (first last : Nat) : Tensor β :=
  match t.shape with
  | [] => t
  | _ :: rest =>
    let size := volume rest
    ⟨(last - first) :: rest, t.cells.extract (first * size) (last * size)⟩

def map {γ : Type} (f : β → γ) (t : Tensor β) : Tensor γ := ⟨t.shape, t.cells.map f⟩

def mapM? {γ : Type} (f : β → Option γ) (t : Tensor β) : Option (Tensor γ) :=
  (t.cells.mapM f).map fun cells => ⟨t.shape, cells⟩

end Tensor

end MarkovDecision
