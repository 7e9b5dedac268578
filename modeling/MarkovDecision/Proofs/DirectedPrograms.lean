import MarkovDecision.Proofs.ExactSums
import MarkovDecision.Proofs.StatePrograms

namespace MarkovDecision

namespace Extended

variable {K : Type} [Field K] [LinearOrder K] [FloorRing K]

theorem signed_signed (direction : Direction) (x : Extended K) : direction.signed (direction.signed x) = x := by
  cases direction with
  | minimise => rfl
  | maximise =>
    change neg (neg x) = x
    rcases x with x | (_ | _) | _
    · exact congrArg finite (neg_neg x)
    all_goals rfl

def opposite : Extended K →+ Extended K where
  toFun x := -x
  map_zero' := congrArg finite neg_zero
  map_add' x y := by
    change neg (add x y) = add (neg x) (neg y)
    rcases x with x | (_ | _) | _ <;> rcases y with y | (_ | _) | _ <;>
      first | rfl | exact congrArg finite (neg_add x y)

theorem signed_sum (direction : Direction) (xs : List (Extended K)) :
    Scalar.sum (xs.map direction.signed) = direction.signed (Scalar.sum xs) := by
  cases direction with
  | minimise => exact congrArg Scalar.sum (List.map_id xs)
  | maximise =>
    rw [scalarSum_eq, scalarSum_eq]
    exact (map_list_sum opposite xs).symm

theorem signed_finite (direction : Direction) (x : K) :
    direction.signed (finite x) = finite (direction.signed x) := by
  cases direction <;> rfl

variable [IsStrictOrderedRing K]

theorem neg_times (x y : Extended K) : -x * y = -(x * y) := by
  have turned {z : K} (nonzero : z ≠ 0) : decide (0 < z) = !decide (z < 0) := by
    rcases lt_or_gt_of_ne nonzero with below | above
    · simp [below, below.le]
    · simp [above, above.le]
  change mul (neg x) y = neg (mul x y)
  cases x with
  | finite x =>
    cases y with
    | finite y => exact congrArg finite (neg_mul x y)
    | infinite b =>
      -- zero times an infinity is NaN, any other factor only changes its sign
      by_cases zero : x = 0
      · simp [mul, neg, zero]
      · simp [mul, neg, zero, turned zero]
    | nan => rfl
  | infinite a =>
    cases y with
    | finite y => by_cases zero : y = 0 <;> simp [mul, neg, zero]
    | infinite b => simp [mul, neg]
    | nan => rfl
  | nan => cases y <;> rfl

theorem signed_times (direction : Direction) (x y : Extended K) :
    direction.signed x * y = direction.signed (x * y) := by
  cases direction with
  | minimise => rfl
  | maximise => exact neg_times x y

end Extended

section Signs

variable {K : Type} [Field K] [LinearOrder K]

-- The sign of multipliers: where a row leaves more room, a minimum can only fall and a maximum only rise.
def Direction.Admits (direction : Direction) (y : K) : Prop :=
  match direction with
  | .minimise => y ≤ 0
  | .maximise => 0 ≤ y

theorem Direction.admits_signed [IsStrictOrderedRing K] {direction : Direction} {y : K}
    (admitted : Direction.minimise.Admits y) : direction.Admits (direction.signed y) := by
  cases direction with
  | minimise => exact admitted
  | maximise => exact neg_nonneg.mpr admitted

end Signs

variable {n : Nat} {K : Type} [Field K] [LinearOrder K] [FloorRing K]

namespace LinearProgram

def AtBound (p : LinearProgram (Extended K)) (x : Fin n → K) (i : Fin n) : Prop :=
  ∃ l u, p.bounds[(i : Nat)]? = some (l, u) ∧ (l = some (.finite (x i)) ∨ u = some (.finite (x i)))

def priced (p : LinearProgram (Extended K)) (ys : List K) (i : Nat) : Extended K :=
  Scalar.sum (List.zipWith (fun c y => .finite y * c.1.get i) p.constraints ys)

-- One multiplier per row, of the sign that goes with the direction. Only rows without slack have a
-- multiplier, and only variables at a bound have a coefficient beyond what the rows are worth.
structure ValidMultipliers (p : LinearProgram (Extended K)) (direction : Direction) (x : Fin n → K)
    (ys : List K) : Prop where
  length : ys.length = p.constraints.length
  sign : ∀ y ∈ ys, direction.Admits y
  complementary : ∀ e ∈ p.constraints.zip ys, e.2 ≠ 0 → e.1.1.dot (exactVector x) = e.1.2
  level : ∀ i : Fin n, ¬ p.AtBound x i → p.objective[(i : Nat)]? = some (p.priced ys i)

section Towards

variable {p : LinearProgram (Extended K)} {direction : Direction} {x : Fin n → K}

theorem towards_feasible : (p.towards direction).Feasible x ↔ p.Feasible x :=
  ⟨fun inside => ⟨inside.unknowns, inside.lower, inside.upper, inside.rows⟩,
    fun inside => ⟨inside.unknowns, inside.lower, inside.upper, inside.rows⟩⟩

variable [IsStrictOrderedRing K]

theorem towards_cost (p : LinearProgram (Extended K)) (direction : Direction) (x : Fin n → K) :
    (p.towards direction).cost x = direction.signed (p.cost x) := by
  change Scalar.sum (List.zipWith (· * ·) (p.objective.map direction.signed) _) = _
  rw [List.zipWith_map_left, cost, ← Extended.signed_sum, List.map_zipWith]
  simp only [Extended.signed_times]

theorem towards_minimal : (p.towards direction).Minimal x ↔ p.Optimal direction x := by
  constructor
  · intro minimal
    refine ⟨towards_feasible.mp minimal.feasible, fun y inside => ?_⟩
    rw [← towards_cost, ← towards_cost]
    exact minimal.least y (towards_feasible.mpr inside)
  · intro optimal
    refine ⟨towards_feasible.mpr optimal.feasible, fun y inside => ?_⟩
    rw [towards_cost, towards_cost]
    exact optimal.best y (towards_feasible.mp inside)

theorem priced_signed (p : LinearProgram (Extended K)) (direction : Direction) (ys : List K) (i : Nat) :
    p.priced (ys.map direction.signed) i = direction.signed (p.priced ys i) := by
  rw [priced, priced, List.zipWith_map_right, ← Extended.signed_sum, List.map_zipWith]
  simp only [← Extended.signed_finite, Extended.signed_times]

theorem towards_multipliers {ys : List K} (valid : (p.towards direction).ValidMultipliers .minimise x ys) :
    p.ValidMultipliers direction x (ys.map direction.signed) where
  length := (List.length_map _).trans valid.length
  sign y member := by
    obtain ⟨z, listed, rfl⟩ := List.mem_map.mp member
    exact Direction.admits_signed (valid.sign z listed)
  complementary e member nonzero := by
    rw [List.zip_map_right] at member
    obtain ⟨⟨c, z⟩, listed, rfl⟩ := List.mem_map.mp member
    refine valid.complementary (c, z) listed fun zero => nonzero ?_
    change direction.signed z = 0
    rw [show z = 0 from zero]
    cases direction
    · rfl
    · exact neg_zero
  level i free := by
    have balanced : (p.objective.map direction.signed)[(i : Nat)]? = some (p.priced ys i) := valid.level i free
    rw [List.getElem?_map, Option.map_eq_some_iff] at balanced
    obtain ⟨c, found, worth⟩ := balanced
    rw [found, priced_signed, ← worth, Extended.signed_signed]

end Towards

end LinearProgram

end MarkovDecision
