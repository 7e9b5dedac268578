import MarkovDecision.Tensor

namespace MarkovDecision

namespace Tensor

-- The axes are matched from the last one. An axis of length one is stretched to the length of its
-- partner, and so is an axis that only one of the two shapes has.
def commonShape? : List Nat → List Nat → Option (List Nat)
  | [], shape => some shape
  | shape, [] => some shape
  | n :: ns, m :: ms =>
    if n == m || m == 1 then (commonShape? ns ms).map (n :: ·)
    else if n == 1 then (commonShape? ns ms).map (m :: ·)
    else none

def coordinates : List Nat → Nat → List Nat
  | [], _ => []
  | n :: ns, position => position % n :: coordinates ns (position / n)

def stretchedPosition : List Nat → List Nat → Nat
  | n :: ns, i :: is => (if n == 1 then 0 else i) + n * stretchedPosition ns is
  | _, _ => 0

variable {β γ δ : Type}

def zipStretched? (f : β → γ → δ) (t : Tensor β) (u : Tensor γ) : Option (Tensor δ) := do
  let shape ← commonShape? t.shape.reverse u.shape.reverse
  let cells ← (List.range (volume shape)).mapM fun position => do
    let place := coordinates shape position
    let x ← t.cells[stretchedPosition t.shape.reverse place]?
    let y ← u.cells[stretchedPosition u.shape.reverse place]?
    return f x y
  return ⟨shape.reverse, cells.toArray⟩

end Tensor

end MarkovDecision
