import MarkovDecision.Failure

namespace MarkovDecision

inductive Objective (α : Type) where
  | finite (discount : α) (horizon : Nat)
  | infinite (discount : α)
  | total
  | base

namespace Objective

variable {α : Type} [Scalar α]

-- A NaN passes, since it is neither below nor above the bounds.
def checkDiscount (closed : Bool) (given : Quantity α) : Outcome α α :=
  let x := given.value
  if Scalar.lt x Scalar.zero || Scalar.lt Scalar.one x || (!closed && Scalar.eq x Scalar.one) then
    .error (.discountOutside given closed)
  else .ok x

def makeInfinite (discount : Quantity α) : Outcome α (Objective α) := do
  return .infinite (← checkDiscount false discount)

def makeFinite (discount : Quantity α) (horizon : Literal) : Outcome α (Objective α) := do
  let x ← checkDiscount true discount
  match horizon with
  | .int n => if 0 < n then return .finite x n.toNat else throw (.horizonNotPositive horizon)
  | _ => throw (.horizonNotPositive horizon)

def discount : Objective α → Outcome α α
  | finite x _ | infinite x => .ok x
  | total => .ok Scalar.one
  | base => .error (.objectiveUnsupported "Objective")

def factor : Objective α → α
  | finite x _ | infinite x => x
  | total | base => Scalar.one

def horizon? : Objective α → Option Nat
  | finite _ n => some n
  | _ => none

def isStationary : Objective α → Bool
  | finite _ _ => false
  | _ => true

def isTotal : Objective α → Bool
  | total => true
  | _ => false

def name : Objective α → String
  | finite _ _ => "FiniteHorizon"
  | infinite _ => "InfiniteHorizon"
  | total => "TotalReward"
  | base => "Objective"

def text? : Objective Float → Option String
  | finite x n => "FiniteHorizon(discount=" ++ Shortest.text x ++ ", horizon=" ++ Literal.intText n ++ ")"
  | infinite x => "InfiniteHorizon(discount=" ++ Shortest.text x ++ ")"
  | total => "TotalReward()"
  | base => none

end Objective

inductive Goal (α : Type) where
  | objective (o : Objective α)
  | bare (l : Literal)

namespace Goal

def discount {α : Type} [Scalar α] : Goal α → Outcome α α
  | objective o => o.discount
  | bare l => .error (.objectiveUnsupported l.typeName)

def resolve : Goal Float → Outcome Float (Objective Float)
  | objective o => .ok o
  | bare (.int n) => Objective.makeInfinite (.whole n)
  | bare (.real x) => Objective.makeInfinite (.real x)
  | bare l => .error (.objectiveUnsupported l.typeName)

def text? : Goal Float → Option String
  | objective o => o.text?
  | bare l => some l.display

end Goal

def readDiscount (l : Literal) : Outcome Float (Quantity Float) :=
  match l with
  | .int n => .ok (.whole n)
  | .real x => .ok (.real x)
  | _ => .error .discountNotReal

def Objective.readFinite (discount horizon : Literal) : Outcome Float (Objective Float) := do
  makeFinite (← readDiscount discount) horizon

def Objective.readInfinite (discount : Literal) : Outcome Float (Objective Float) := do
  makeInfinite (← readDiscount discount)

end MarkovDecision
