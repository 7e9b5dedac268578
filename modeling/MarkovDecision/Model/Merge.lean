import MarkovDecision.Number.Scalar

namespace MarkovDecision

structure Columns (α : Type) where
  next : List Int
  probability : List α
  reward : List α

namespace Columns

variable {α : Type} [Scalar α]

def targets (c : Columns α) : List Int := c.next.eraseDups.mergeSort (· ≤ ·)

def weightTo (target : Int) (next : List Int) (weights : List α) : α :=
  (next.zip weights).foldl (fun total (n, w) => if n == target then total + w else total) Scalar.zero

-- Rewards are averaged by probability, so that expected rewards stay as they are. A group whose
-- probabilities do not add up to something positive keeps its weighted sum.
def merged (c : Columns α) : Columns α :=
  let products := List.zipWith (· * ·) c.probability c.reward
  let probability := c.targets.map fun t => weightTo t c.next c.probability
  let reward := c.targets.map fun t =>
    let p := weightTo t c.next c.probability
    let weighted := weightTo t c.next products
    if Scalar.lt Scalar.zero p then weighted / p else weighted
  { next := c.targets, probability, reward }

end Columns

end MarkovDecision
