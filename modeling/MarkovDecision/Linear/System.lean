import MarkovDecision.Number.Scalar

namespace MarkovDecision

variable {α : Type} [Scalar α]

structure Equation (α : Type) where
  coefficients : List α
  rhs : α

namespace Equation

def lead (e : Equation α) : α := e.coefficients.headD Scalar.zero

def tail (e : Equation α) : Equation α := ⟨e.coefficients.tail, e.rhs⟩

def reduce (pivot e : Equation α) : Equation α :=
  let factor := e.lead / pivot.lead
  { coefficients := List.zipWith (fun x y => x - factor * y) e.tail.coefficients pivot.tail.coefficients
    rhs := e.rhs - factor * pivot.rhs }

def reduceSparse (pivot e : Equation α) : Equation α :=
  if Scalar.eq e.lead Scalar.zero then e.tail else reduce pivot e

def leadValue (e : Equation α) (xs : List α) : α :=
  (e.tail.coefficients.zip xs).foldl (fun rest (c, x) => rest - c * x) e.rhs / e.lead

def leadValueSparse (e : Equation α) (xs : List α) : α :=
  (e.tail.coefficients.zip xs).foldl
    (fun rest (c, x) => if Scalar.eq c Scalar.zero then rest else rest - c * x) e.rhs / e.lead

end Equation

namespace LinearSystem

-- The first of the equations with the largest leading entry. Where no leading entry differs from
-- zero there is no pivot, and the system has no unique solution.
def choosePivot : List (Equation α) → Option (Equation α × List (Equation α))
  | [] => none
  | e :: rest =>
    match choosePivot rest with
    | none => some (e, [])
    | some (best, others) =>
      if Scalar.lt (Scalar.abs e.lead) (Scalar.abs best.lead) then some (best, e :: others)
      else some (e, rest)

def triangular (reduce : Equation α → Equation α → Equation α) :
    Nat → List (Equation α) → Option (List (Equation α))
  | 0, _ => some []
  | n + 1, equations =>
    match choosePivot equations with
    | none => none
    | some (pivot, others) =>
      if Scalar.eq pivot.lead Scalar.zero then none
      else (triangular reduce n (others.map (reduce pivot))).map (pivot :: ·)

def backSubstitute (leadValue : Equation α → List α → α) : List (Equation α) → List α
  | [] => []
  | e :: rest =>
    let xs := backSubstitute leadValue rest
    leadValue e xs :: xs

def solve (equations : List (Equation α)) : Option (List α) :=
  (triangular Equation.reduce equations.length equations).map (backSubstitute Equation.leadValue)

-- Zero entries are left out, so that a NaN or an infinity reaches only the unknowns that depend on
-- it.
def solveSparse (equations : List (Equation α)) : Option (List α) :=
  (triangular Equation.reduceSparse equations.length equations).map
    (backSubstitute Equation.leadValueSparse)

end LinearSystem

end MarkovDecision
