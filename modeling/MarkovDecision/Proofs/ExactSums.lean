import Mathlib
import MarkovDecision.Number.Sum
import MarkovDecision.Proofs.Extended

namespace MarkovDecision

theorem sum_groups {ι β M : Type} [DecidableEq ι] [AddCommMonoid M] (key : β → ι) (h : β → M)
    {groups : List ι} (distinct : groups.Nodup) {xs : List β} (covered : ∀ x ∈ xs, key x ∈ groups) :
    (groups.map fun t => ((xs.filter fun x => key x = t).map h).sum).sum = (xs.map h).sum := by
  rw [← List.sum_toFinset _ distinct]
  induction xs with
  | nil => simp
  | cons x rest ih =>
    obtain ⟨here, later⟩ := List.forall_mem_cons.mp covered
    have single (t : ι) : (((x :: rest).filter fun x => key x = t).map h).sum
        = (if key x = t then h x else 0) + ((rest.filter fun x => key x = t).map h).sum := by
      by_cases same : key x = t
      · simp [same]
      · simp [same]
    rw [Finset.sum_congr rfl fun t _ => single t, Finset.sum_add_distrib, ih later, Finset.sum_ite_eq,
      if_pos (List.mem_toFinset.mpr here), List.map_cons, List.sum_cons]

namespace Extended

variable {K : Type} [Field K] [LinearOrder K] [FloorRing K]

theorem add_swap (x y : Extended K) : x + y = y + x := by
  change add x y = add y x
  -- the signs of infinities are taken apart as well, so that all but two finite numbers compute
  rcases x with x | (_ | _) | _ <;> rcases y with y | (_ | _) | _ <;> first | rfl | exact congrArg finite (add_comm x y)

theorem add_regroup (x y z : Extended K) : x + y + z = x + (y + z) := by
  change add (add x y) z = add x (add y z)
  rcases x with x | (_ | _) | _ <;> rcases y with y | (_ | _) | _ <;> rcases z with z | (_ | _) | _ <;>
    first | rfl | exact congrArg finite (add_assoc x y z)

theorem zero_plus (x : Extended K) : finite 0 + x = x := by
  cases x with
  | finite x => exact congrArg finite (zero_add x)
  | infinite => rfl
  | nan => rfl

instance : Zero (Extended K) := ⟨finite 0⟩

instance : AddCommMonoid (Extended K) where
  add_assoc := add_regroup
  zero_add := zero_plus
  add_zero x := (add_swap x 0).trans (zero_plus x)
  add_comm := add_swap
  nsmul := nsmulRec

theorem foldl_sum (xs : List (Extended K)) (start : Extended K) : xs.foldl (· + ·) start = start + xs.sum := by
  induction xs generalizing start with
  | nil => exact (add_zero start).symm
  | cons x rest ih => rw [List.foldl_cons, ih, List.sum_cons, add_assoc]

theorem sum_map_finite {β : Type} (f : β → K) (xs : List β) :
    (xs.map fun x => finite (f x)).sum = finite (xs.map f).sum := by
  induction xs with
  | nil => rfl
  | cons x rest ih => rw [List.map_cons, List.sum_cons, ih, finite_add, List.map_cons, List.sum_cons]

theorem finite_of_add {x y : Extended K} {z : K} (total : x + y = finite z) :
    ∃ a b, x = finite a ∧ y = finite b := by
  change add x y = finite z at total
  rcases x with a | (_ | _) | _ <;> rcases y with b | (_ | _) | _ <;> first | exact ⟨a, b, rfl, rfl⟩ | cases total

theorem finite_of_sum {xs : List (Extended K)} {z : K} (total : xs.sum = finite z) :
    ∃ ks : List K, xs = ks.map finite := by
  induction xs generalizing z with
  | nil => exact ⟨[], rfl⟩
  | cons x rest ih =>
    obtain ⟨k, sum, rfl, later⟩ := finite_of_add total
    obtain ⟨ks, rfl⟩ := ih later
    exact ⟨k :: ks, rfl⟩

theorem finite_of_isNearlyOne {x : Extended K} (near : Scalar.isNearlyOne x = true) : ∃ k, x = finite k := by
  rcases x with k | (_ | _) | _
  · exact ⟨k, rfl⟩
  · cases near
  · cases near
  · cases near

section Arrays

open Scalar

theorem scalarSum_eq (xs : List (Extended K)) : Scalar.sum xs = xs.sum := by
  rw [Scalar.sum, foldl_sum, zero_eq]
  exact zero_add xs.sum

theorem pairSums_sum : ∀ xs : List (Extended K), (pairSums xs).sum = xs.sum
  | [] => rfl
  | [_] => rfl
  | x :: y :: rest => by
    rw [pairSums, List.sum_cons, pairSums_sum rest, List.sum_cons, List.sum_cons, add_assoc]

theorem addRows_sum (lanes xs : List (Extended K)) (width : lanes.length = laneCount) :
    (addRows lanes xs).1.sum + (addRows lanes xs).2.sum = lanes.sum + xs.sum := by
  induction lanes, xs using addRows.induct with
  | case1 lanes xs short => rw [addRows, dif_pos short]
  | case2 lanes xs full ih =>
    have row : lanes.length = (xs.take laneCount).length := by
      rw [List.length_take, width, Nat.min_eq_left (by omega)]
    rw [addRows, dif_neg full, ih (by rw [List.length_zipWith, ← row, Nat.min_self, width]),
      ← List.sum_add_sum_eq_sum_zipWith_of_length_eq _ _ row, add_assoc, ← List.sum_append, List.take_append_drop]

theorem blockSum_sum (xs : List (Extended K)) : blockSum xs = xs.sum := by
  unfold blockSum
  split
  · exact scalarSum_eq xs
  · rename_i full
    have width : (xs.take laneCount).length = laneCount := by
      rw [List.length_take, Nat.min_eq_left (by omega)]
    dsimp only
    rw [foldl_sum, scalarSum_eq, pairSums_sum, pairSums_sum, pairSums_sum, addRows_sum _ _ width,
      ← List.sum_append, List.take_append_drop]

theorem arraySum_sum (xs : List (Extended K)) : arraySum xs = xs.sum := by
  induction xs using arraySum.induct with
  | case1 xs short => rw [arraySum, dif_pos short, blockSum_sum]
  | case2 xs long first ih jh =>
    rw [arraySum, dif_neg long]
    change arraySum (xs.take first) + arraySum (xs.drop first) = xs.sum
    rw [ih, jh, ← List.sum_append, List.take_append_drop]

theorem deviation_exact [IsStrictOrderedRing K] {β : Type} (f : β → K) (xs : List β) :
    Scalar.abs (arraySum (xs.map fun x => finite (f x)) - Scalar.one) = (finite |(xs.map f).sum - 1| : Extended K) := by
  rw [arraySum_sum, sum_map_finite, one_eq, finite_sub, abs_finite]

end Arrays

section Positive

variable {p q : K}

theorem pos_mul_infinite (positive : 0 < p) (a : Bool) : (finite p : Extended K) * infinite a = infinite a := by
  change (if p = 0 then nan else infinite (a != decide (p < 0))) = infinite a
  rw [if_neg positive.ne', decide_eq_false positive.not_gt, Bool.bne_false]

theorem pos_mul_add (positive : 0 < p) (r : K) (x : Extended K) :
    finite p * (finite r + x) = finite (p * r) + finite p * x := by
  cases x with
  | finite x => simp only [finite_add, finite_mul, mul_add]
  | infinite a =>
    have absorbed (y : K) : (finite y : Extended K) + infinite a = infinite a := rfl
    rw [absorbed, pos_mul_infinite positive, absorbed]
  | nan => rfl

theorem pos_add_mul [IsStrictOrderedRing K] (first : 0 < p) (second : 0 < q) (x : Extended K) :
    finite p * x + finite q * x = finite (p + q) * x := by
  cases x with
  | finite x => simp only [finite_add, finite_mul, add_mul]
  | infinite a =>
    rw [pos_mul_infinite first, pos_mul_infinite second, pos_mul_infinite (add_pos first second)]
    exact if_pos rfl
  | nan => rfl

end Positive

end Extended

end MarkovDecision
