import MarkovDecision.LinearProgram.Basic
import MarkovDecision.LinearProgram.Dictionary
import MarkovDecision.Number.Simplest

namespace MarkovDecision

namespace ExactProgram

-- A variable in terms of nonnegative ones: the numbers of these, and how they make it up.
inductive Substitute where
  -- base + y
  | above (base : Rat) (y : Nat)
  -- base - y
  | below (base : Rat) (y : Nat)
  -- y - z
  | free (y z : Nat)

namespace Substitute

def next : Substitute → Nat
  | above _ y | below _ y => y + 1
  | free _ z => z + 1

def base : Substitute → Rat
  | above b _ | below b _ => b
  | free _ _ => 0

def terms : Substitute → List (Nat × Rat)
  | above _ y => [(y, 1)]
  | below _ y => [(y, -1)]
  | free y z => [(y, 1), (z, -1)]

def value (value : Nat → Rat) (s : Substitute) : Rat :=
  s.terms.foldl (fun total (y, c) => total + c * value y) s.base

end Substitute

def substitutes : Nat → List (Option Rat × Option Rat) → List Substitute
  | _, [] => []
  | n, (lower, upper) :: rest =>
    let s : Substitute := match lower, upper with
      | some l, _ => .above l n
      | none, some u => .below u n
      | none, none => .free n (n + 1)
    s :: substitutes s.next rest

def affine (width : Nat) (subs : List Substitute) (entries : List (Nat × Rat)) : Affine :=
  entries.foldl (fun f (c, x) =>
    match subs[c]? with
    | none => f
    | some s =>
      { constant := f.constant + x * s.base
        coefficients := s.terms.foldl (fun cs (y, t) => cs.modify y (· + x * t)) f.coefficients })
    ⟨0, List.replicate width 0⟩

def slack (f : Affine) (bound : Rat) : Affine := ⟨bound - f.constant, f.coefficients.map (- ·)⟩

def boundRows (width : Nat) (subs : List Substitute) (bounds : List (Option Rat × Option Rat)) :
    List Affine :=
  (bounds.zipIdx.filterMap fun ((lower, upper), i) =>
    match lower, upper with
    | some _, some u => some (slack (affine width subs [(i, 1)]) u)
    | _, _ => none)

def indexed (xs : List Rat) : List (Nat × Rat) := xs.zipIdx.map fun (x, i) => (i, x)

def solve : ProgramSolver Rat := fun p =>
  let subs := substitutes 0 p.bounds
  let width := (subs.getLast?.map Substitute.next).getD 0
  let rows := (p.constraints.map fun (row, b) => slack (affine width subs row) b)
    ++ boundRows width subs p.bounds
  -- a dictionary maximises
  let start : Dictionary := {
    nonbasic := List.range width
    basic := (List.range rows.length).map (· + width)
    rows
    objective := affine width subs (indexed (p.objective.map (- ·))) }
  match start.finish with
  | (d, .optimal) =>
    .optimal (subs.map (Substitute.value d.valueOf)) (-d.objective.constant)
      ((List.range p.constraints.length).map fun (i : Nat) => -d.costOf (width + i))
  | (_, .infeasible) => .infeasible
  | (d, .dualInfeasible) =>
    match d.feasibility.finish with
    | (_, .optimal) => .unbounded
    | (_, .infeasible) => .infeasible
    | _ => .undecided
  | _ => .undecided

def rational? (p : LinearProgram Float) : Option (LinearProgram Rat) := do
  let number := Simplest.ofFloat?
  let bound (b : Option Float) : Option (Option Rat) := match b with
    | none => some none
    | some x => (number x).map some
  return {
    objective := ← p.objective.mapM number
    bounds := ← p.bounds.mapM fun (l, u) => do return (← bound l, ← bound u)
    constraints := ← p.constraints.mapM fun (row, b) => do
      return (← row.mapM fun (c, x) => do return (c, ← number x), ← number b) }

def solveFloat : ProgramSolver Float := fun p =>
  match rational? p with
  | some q => (solve q).map Simplest.toFloat
  | none => .undecided

end ExactProgram

end MarkovDecision
