import MarkovDecision.Number.Scalar

namespace MarkovDecision

namespace Scalar

variable {α : Type} [Scalar α]

def laneCount : Nat := 8

def blockLength : Nat := 128

def pairSums : List α → List α
  | x :: y :: rest => (x + y) :: pairSums rest
  | xs => xs

def addRows (lanes xs : List α) : List α × List α :=
  if _h : xs.length < laneCount then (lanes, xs)
  else addRows (List.zipWith (· + ·) lanes (xs.take laneCount)) (xs.drop laneCount)
  termination_by xs.length
  decreasing_by simp only [List.length_drop, laneCount] at *; omega

def blockSum (xs : List α) : α :=
  if xs.length < laneCount then sum xs
  else
    let (lanes, rest) := addRows (xs.take laneCount) (xs.drop laneCount)
    rest.foldl (· + ·) (sum (pairSums (pairSums (pairSums lanes))))

-- Short arrays are added from the left, longer ones in lanes side by side, and arrays beyond a
-- block are halved first. In exact arithmetic this makes no difference.
def arraySum (xs : List α) : α :=
  if _h : xs.length ≤ blockLength then blockSum xs
  else
    let first := xs.length / 2 - xs.length / 2 % laneCount
    arraySum (xs.take first) + arraySum (xs.drop first)
  termination_by xs.length
  decreasing_by all_goals simp only [List.length_take, List.length_drop, blockLength, laneCount] at *; omega

end Scalar

end MarkovDecision
