import MarkovDecision.Literal.Basic
import MarkovDecision.Number.Norm
import Mathlib

namespace MarkovDecision

-- The elements of an ordered field, both infinities and a NaN, with the rules of binary floating
-- point except that there is one zero, whose quotients take their sign from the numerator.
inductive Extended (K : Type) where
  | finite (x : K)
  | infinite (negative : Bool)
  | nan
  deriving DecidableEq

namespace Extended

variable {K : Type}

theorem finite_injective : Function.Injective (finite : K → Extended K) := fun _ _ same => finite.inj same

-- The number behind a finite one; anything else counts as zero.
def real [Zero K] : Extended K → K
  | finite x => x
  | _ => 0

section Operations

variable [Field K] [LinearOrder K]

def add : Extended K → Extended K → Extended K
  | finite x, finite y => finite (x + y)
  | nan, _ | _, nan => nan
  | infinite a, infinite b => if a = b then infinite a else nan
  | infinite a, finite _ | finite _, infinite a => infinite a

def neg : Extended K → Extended K
  | finite x => finite (-x)
  | infinite a => infinite (!a)
  | nan => nan

def mul : Extended K → Extended K → Extended K
  | finite x, finite y => finite (x * y)
  | nan, _ | _, nan => nan
  | infinite a, infinite b => infinite (a != b)
  | infinite a, finite x | finite x, infinite a => if x = 0 then nan else infinite (a != decide (x < 0))

def div : Extended K → Extended K → Extended K
  | finite x, finite y =>
    if y = 0 then (if x = 0 then nan else infinite (decide (x < 0))) else finite (x / y)
  | nan, _ | _, nan | infinite _, infinite _ => nan
  | finite _, infinite _ => finite 0
  | infinite a, finite y => infinite (a != decide (y < 0))

def lt : Extended K → Extended K → Bool
  | finite x, finite y => decide (x < y)
  | infinite true, finite _ | infinite true, infinite false | finite _, infinite false => true
  | _, _ => false

def eq : Extended K → Extended K → Bool
  | finite x, finite y => decide (x = y)
  | infinite a, infinite b => a == b
  | _, _ => false

def truncate [FloorRing K] : Extended K → Option Int
  | finite x => some (if x < 0 then ⌈x⌉ else ⌊x⌋)
  | _ => none

end Operations

variable [Field K] [LinearOrder K] [FloorRing K]

instance : Scalar (Extended K) where
  add := add
  sub x y := add x (neg y)
  mul := mul
  div := div
  neg := neg
  ofInt n := finite n
  infinity := infinite false
  lt := lt
  le x y := lt x y || eq x y
  eq := eq
  truncate := truncate

@[simp] theorem finite_add (x y : K) : finite x + finite y = finite (x + y) := rfl

@[simp] theorem finite_neg (x : K) : -finite x = finite (-x) := rfl

@[simp] theorem finite_sub (x y : K) : finite x - finite y = finite (x - y) :=
  congrArg finite (sub_eq_add_neg x y).symm

@[simp] theorem finite_mul (x y : K) : finite x * finite y = finite (x * y) := rfl

theorem finite_div {x y : K} (nonzero : y ≠ 0) : finite x / finite y = finite (x / y) := if_neg nonzero

@[simp] theorem ofInt_eq (n : Int) : (Scalar.ofInt n : Extended K) = finite (n : K) := rfl

@[simp] theorem zero_eq : (Scalar.zero : Extended K) = finite 0 := congrArg finite Int.cast_zero

@[simp] theorem one_eq : (Scalar.one : Extended K) = finite 1 := congrArg finite Int.cast_one

theorem neg_one : -(Scalar.one : Extended K) = finite (-1) := by rw [one_eq, finite_neg]

@[simp] theorem infinity_eq : (Scalar.infinity : Extended K) = infinite false := rfl

@[simp] theorem negInfinity_eq : (Scalar.negInfinity : Extended K) = infinite true := rfl

@[simp] theorem lt_finite (x y : K) : Scalar.lt (finite x) (finite y) = decide (x < y) := rfl

@[simp] theorem eq_finite (x y : K) : Scalar.eq (finite x) (finite y) = decide (x = y) := rfl

@[simp] theorem le_finite (x y : K) : Scalar.le (finite x) (finite y) = decide (x ≤ y) := by
  change (decide (x < y) || decide (x = y)) = decide (x ≤ y)
  rw [← Bool.decide_or, decide_eq_decide]
  exact le_iff_lt_or_eq.symm

@[simp] theorem negInfinity_lt (x : K) : Scalar.lt (infinite true) (finite x) = true := rfl

@[simp] theorem le_infinity (x : K) : Scalar.le (finite x) (infinite false) = true := rfl

@[simp] theorem isNaN_finite (x : K) : Scalar.isNaN (finite x) = false := by simp [Scalar.isNaN]

@[simp] theorem larger_finite (x y : K) : Scalar.larger (finite x) (finite y) = finite (max x y) := by
  rcases lt_or_ge x y with below | above
  · simp [Scalar.larger, below, below.le]
  · simp [Scalar.larger, above, above.not_gt]

@[simp] theorem smaller_finite (x y : K) : Scalar.smaller (finite x) (finite y) = finite (min x y) := by
  rcases lt_or_ge y x with below | above
  · simp [Scalar.smaller, below, below.le]
  · simp [Scalar.smaller, above, above.not_gt]

@[simp] theorem abs_finite [IsStrictOrderedRing K] (x : K) : Scalar.abs (finite x) = finite |x| := by
  unfold Scalar.abs
  rw [zero_eq, lt_finite, finite_neg]
  rcases lt_or_ge x 0 with negative | nonnegative
  · rw [if_pos (decide_eq_true negative), abs_of_neg negative]
  · rw [if_neg (by simpa using nonnegative), abs_of_nonneg nonnegative]

theorem tenth_finite [IsStrictOrderedRing K] (places : Nat) :
    (Scalar.tenth places : Extended K) = finite (1 / 10 ^ places) := by
  have power : ((pow10 places : Int) : K) = 10 ^ places := by simp [pow10]
  rw [Scalar.tenth, ofInt_eq, ofInt_eq, power, Int.cast_one, finite_div (by positivity)]

theorem isNearlyOne_finite [IsStrictOrderedRing K] (x : K) :
    Scalar.isNearlyOne (finite x) = decide (|x - 1| ≤ 1 / 10 ^ 8 + 1 / 10 ^ 5) := by
  have finite_abs : Scalar.eq (finite |x| : Extended K) (infinite false) = false := rfl
  unfold Scalar.isNearlyOne
  rw [abs_finite, infinity_eq, finite_abs, if_neg Bool.false_ne_true, one_eq, finite_sub, abs_finite, abs_finite,
    abs_one, tenth_finite, tenth_finite, finite_mul, mul_one, finite_add, le_finite]

theorem foldl_add (xs : List K) (start : K) :
    (xs.map finite).foldl (· + ·) (finite start) = finite (start + xs.sum) := by
  induction xs generalizing start with
  | nil => simp
  | cons x rest ih => simp only [List.map_cons, List.foldl_cons, finite_add, ih, List.sum_cons, add_assoc]

@[simp] theorem sum_finite (xs : List K) : Scalar.sum (xs.map finite) = finite xs.sum := by
  rw [Scalar.sum, zero_eq, foldl_add, zero_add]

end Extended

namespace Quantity

variable {K : Type} [Field K] [LinearOrder K] [FloorRing K]

@[simp] theorem value_whole (n : Int) : (whole n : Quantity (Extended K)).value = .finite n := rfl

@[simp] theorem value_real (x : Extended K) : (real x).value = x := rfl

theorem value_add (p q : Quantity (Extended K)) : (p.add q).value = p.value + q.value := by
  cases p <;> cases q <;> simp [add, combine, value]

theorem value_mul (p q : Quantity (Extended K)) : (p.mul q).value = p.value * q.value := by
  cases p <;> cases q <;> simp [mul, combine, value]

theorem value_neg (q : Quantity (Extended K)) : q.neg.value = -q.value := by
  cases q <;> simp [neg, value]

theorem value?_finite [IsStrictOrderedRing K] {q : Quantity (Extended K)} {x : K}
    (known : q.value = .finite x) : q.value? = some (.finite x) := by
  cases q with
  | whole n =>
    have known : (Scalar.ofInt n : Extended K) = .finite x := known
    simp only [value?, known, Extended.abs_finite, Extended.infinity_eq]
    rfl
  | real y => exact congrArg some known

end Quantity

end MarkovDecision
