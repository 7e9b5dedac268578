import Mathlib
import MarkovDecision.Proofs.BuiltModel

namespace MarkovDecision

namespace Extended

variable {K : Type}

-- A check asks whether a number is out of bounds, and a NaN is neither below nor above any bound.
inductive Passes (bounds : K → Prop) : Extended K → Prop where
  | finite {x : K} (inside : bounds x) : Passes bounds (.finite x)
  | nan : Passes bounds .nan

theorem Passes.finite_iff {bounds : K → Prop} {x : K} : Passes bounds (.finite x) ↔ bounds x := by
  constructor
  · rintro ⟨inside⟩
    exact inside
  · exact .finite

theorem Passes.not_infinite {bounds : K → Prop} {negative : Bool} : ¬Passes bounds (.infinite negative) := by
  rintro ⟨⟩

theorem Passes.all_finite {bounds : K → Prop} {xs : List (Extended K)} (each : ∀ x ∈ xs, Passes bounds x) :
    .nan ∈ xs ∨ ∃ ks : List K, xs = ks.map .finite := by
  induction xs with
  | nil => exact .inr ⟨[], rfl⟩
  | cons x rest ih =>
    obtain ⟨here, later⟩ := List.forall_mem_cons.mp each
    cases here with
    | nan => exact .inl List.mem_cons_self
    | @finite k _ =>
      rcases ih later with found | ⟨ks, rfl⟩
      · exact .inl (List.mem_cons_of_mem _ found)
      · exact .inr ⟨k :: ks, rfl⟩

section Ordered

variable [Field K] [LinearOrder K] [FloorRing K]

theorem sum_nan {xs : List (Extended K)} (member : .nan ∈ xs) : xs.sum = .nan := by
  induction xs with
  | nil => cases member
  | cons x rest ih =>
    rw [List.sum_cons]
    rcases List.mem_cons.mp member with rfl | member
    · rfl
    · rw [ih member, add_swap]
      rfl

theorem discount_passes (closed : Bool) (x : Extended K) :
    (Scalar.lt x Scalar.zero || Scalar.lt Scalar.one x || (!closed && Scalar.eq x Scalar.one)) = false ↔
      Passes (fun γ => 0 ≤ γ ∧ if closed then γ ≤ 1 else γ < 1) x := by
  rw [zero_eq, one_eq]
  cases x with
  | finite γ =>
    rw [Passes.finite_iff, lt_finite, lt_finite, eq_finite]
    simp only [Bool.or_eq_false_iff, decide_eq_false_iff_not, not_lt, and_assoc]
    cases closed
    · simp [lt_iff_le_and_ne]
    · simp
  | infinite negative =>
    refine iff_of_false ?_ Passes.not_infinite
    cases negative <;> exact Bool.noConfusion
  | nan => exact iff_of_true (by cases closed <;> rfl) .nan

theorem probability_passes (t : K) (x : Extended K) :
    Scalar.le x Scalar.zero = false ∧ Scalar.lt (Scalar.one + .finite t) x = false ↔
      Passes (fun p => 0 < p ∧ p ≤ 1 + t) x := by
  rw [zero_eq, one_eq, finite_add]
  cases x with
  | finite p =>
    rw [Passes.finite_iff, le_finite, lt_finite]
    simp
  | infinite negative =>
    refine iff_of_false ?_ Passes.not_infinite
    rintro ⟨above, below⟩
    cases negative
    · cases below
    · cases above
  | nan => exact iff_of_true ⟨rfl, rfl⟩ .nan

theorem total_passes [IsStrictOrderedRing K] {bounds : K → Prop} {xs : List (Extended K)}
    (each : ∀ x ∈ xs, Passes bounds x) (t : K) :
    Scalar.lt (.finite t) (Scalar.abs (Scalar.arraySum xs - Scalar.one)) = false ↔
      .nan ∈ xs ∨ ∃ ks : List K, xs = ks.map .finite ∧ |ks.sum - 1| ≤ t := by
  rcases Passes.all_finite each with found | ⟨ks, rfl⟩
  · refine iff_of_true ?_ (.inl found)
    rw [arraySum_sum, sum_nan found]
    rfl
  · have deviation := deviation_exact id ks
    rw [List.map_id] at deviation
    have plain : ks.map (fun k => finite (id k)) = ks.map finite := rfl
    rw [plain] at deviation
    rw [deviation, lt_finite, decide_eq_false_iff_not, not_lt]
    constructor
    · exact fun near => .inr ⟨ks, rfl, near⟩
    · rintro (found | ⟨ks', same, near⟩)
      · obtain ⟨k, _, impossible⟩ := List.mem_map.mp found
        cases impossible
      · rwa [List.map_injective_iff.mpr finite_injective same]

end Ordered

end Extended

variable {K : Type} [Field K] [LinearOrder K] [FloorRing K]

theorem Objective.checkDiscount_ok {closed : Bool} {given : Quantity (Extended K)} {x : Extended K} :
    checkDiscount closed given = .ok x ↔
      Extended.Passes (fun γ => 0 ≤ γ ∧ if closed then γ ≤ 1 else γ < 1) given.value ∧ x = given.value := by
  have passes := Extended.discount_passes closed given.value
  unfold checkDiscount
  dsimp only
  split
  · rename_i outside
    rw [outside] at passes
    refine iff_of_false (fun accepted => by cases accepted) fun ⟨inside, _⟩ => ?_
    cases passes.mpr inside
  · rename_i inside
    rw [Except.ok.injEq, eq_comm]
    exact (and_iff_right (passes.mp (Bool.eq_false_of_not_eq_true inside))).symm

theorem Objective.makeInfinite_ok {given : Quantity (Extended K)} {o : Objective (Extended K)} :
    makeInfinite given = .ok o ↔
      Extended.Passes (fun γ => 0 ≤ γ ∧ γ < 1) given.value ∧ o = .infinite given.value := by
  rw [makeInfinite, Outcome.bind_ok]
  constructor
  · rintro ⟨x, checked, made⟩
    obtain ⟨passes, rfl⟩ := checkDiscount_ok.mp checked
    cases made
    exact ⟨passes, rfl⟩
  · rintro ⟨passes, rfl⟩
    exact ⟨_, checkDiscount_ok.mpr ⟨passes, rfl⟩, rfl⟩

theorem Objective.makeFinite_ok {given : Quantity (Extended K)} {horizon : Literal} {o : Objective (Extended K)} :
    makeFinite given horizon = .ok o ↔ Extended.Passes (fun γ => 0 ≤ γ ∧ γ ≤ 1) given.value ∧
      ∃ n : Nat, 0 < n ∧ horizon = .int n ∧ o = .finite given.value n := by
  rw [makeFinite, Outcome.bind_ok]
  constructor
  · rintro ⟨x, checked, made⟩
    obtain ⟨passes, rfl⟩ := checkDiscount_ok.mp checked
    refine ⟨passes, ?_⟩
    split at made
    · rename_i n
      split at made
      · rename_i positive
        cases made
        refine ⟨n.toNat, by omega, ?_, rfl⟩
        rw [Int.toNat_of_nonneg positive.le]
      · cases made
    · cases made
  · rintro ⟨passes, n, positive, rfl, rfl⟩
    refine ⟨_, checkDiscount_ok.mpr ⟨passes, rfl⟩, ?_⟩
    exact if_pos (Int.natCast_pos.mpr positive)

theorem Goal.resolve_ok {g : Goal Float} {o : Objective Float} : g.resolve = .ok o ↔
    g = .objective o ∨ ∃ q : Quantity Float, g = .bare q.literal ∧ Objective.makeInfinite q = .ok o := by
  constructor
  · intro resolved
    cases g with
    | objective o' =>
      cases resolved
      exact .inl rfl
    | bare l =>
      cases l with
      | int n => exact .inr ⟨.whole n, rfl, resolved⟩
      | real x => exact .inr ⟨.real x, rfl, resolved⟩
      | _ => cases resolved
  · rintro (rfl | ⟨q, rfl, made⟩)
    · rfl
    · cases q with
      | whole n => exact made
      | real x => exact made

variable [IsStrictOrderedRing K]

-- The probabilities of an accepted action. They add up to one within the tolerance, unless there is a NaN among them.
structure Weighs (t : K) (ps : List (Extended K)) : Prop where
  each : ∀ p ∈ ps, Extended.Passes (fun x => 0 < x ∧ x ≤ 1 + t) p
  total : .nan ∈ ps ∨ ∃ xs : List K, ps = xs.map .finite ∧ |xs.sum - 1| ≤ t

theorem Columns.weighs {c : Columns (Extended K)} {t : K} :
    c.Bounded (.finite t) ∧ c.Balanced (.finite t) ↔ Weighs t c.probability := by
  have bounded : c.Bounded (.finite t) ↔ ∀ p ∈ c.probability, Extended.Passes (fun x => 0 < x ∧ x ≤ 1 + t) p :=
    forall₂_congr fun p _ => Extended.probability_passes t p
  constructor
  · rintro ⟨each, total⟩
    exact ⟨bounded.mp each, (Extended.total_passes (bounded.mp each) t).mp total⟩
  · rintro ⟨each, total⟩
    exact ⟨bounded.mpr each, (Extended.total_passes each t).mpr total⟩

namespace FlatModel

theorem Checked.weighs {f : FlatModel (Extended K)} {t : K} (checked : f.Checked (.finite t)) {s : Nat}
    (inside : s < f.stateCount) : ∃ k : Nat, 0 < k ∧ f.actionCount (s : Nat) = .ok (k : Int) ∧ ∀ a < k, ∃ us,
      f.transitions (s : Nat) (a : Nat) = .ok us ∧ Weighs t (us.map (·.probability.value)) := by
  obtain ⟨k, positive, count, each⟩ := checked.states s inside
  refine ⟨k, positive, count, fun a within => ?_⟩
  obtain ⟨c, known, even, _, bounded, balanced⟩ := each a within
  refine ⟨_, known, ?_⟩
  rw [Columns.transitions_probability even]
  exact Columns.weighs.mp ⟨bounded, balanced⟩

theorem build_weighs {t : K} {rows : List (List (Columns (Extended K)))} :
    (∃ f, build (.finite t) (rows.map fun row => .ok (row.map fun c => .ok (.ofColumns c))) = .ok f) ↔
      rows ≠ [] ∧ ∀ row ∈ rows, row ≠ [] ∧ ∀ c ∈ row,
        c.Even ∧ c.next ≠ [] ∧ c.Inside rows.length ∧ Weighs t c.probability := by
  have fits (c : Columns (Extended K)) : (ActionArrays.ofColumns c).Admissible rows.length (.finite t) ↔
      c.Even ∧ c.next ≠ [] ∧ c.Inside rows.length ∧ Weighs t c.probability := by
    rw [Columns.fits_iff, ← Columns.weighs]
    constructor
    · rintro ⟨even, nonempty, inside, bounded, balanced⟩
      exact ⟨even, nonempty, inside, bounded, balanced⟩
    · rintro ⟨even, nonempty, inside, bounded, balanced⟩
      exact ⟨even, nonempty, inside, bounded, balanced⟩
  simp only [← fits]
  constructor
  · rintro ⟨f, built⟩
    rcases admissible_or_refused (.finite t) rows with admissible | ⟨e, refused, _⟩
    · exact admissible
    · cases built.symm.trans refused
  · rintro ⟨some, each⟩
    exact ⟨_, build_laid some each⟩

end FlatModel

-- What is accepted: discounts and probabilities within their bounds, and NaN. No infinity is accepted.
theorem accepted_numbers :
    (∀ (given : Quantity (Extended K)) o, Objective.makeInfinite given = .ok o ↔
      Extended.Passes (fun γ => 0 ≤ γ ∧ γ < 1) given.value ∧ o = .infinite given.value) ∧
    (∀ (given : Quantity (Extended K)) horizon o, Objective.makeFinite given horizon = .ok o ↔
      Extended.Passes (fun γ => 0 ≤ γ ∧ γ ≤ 1) given.value ∧
        ∃ n : Nat, 0 < n ∧ horizon = .int n ∧ o = .finite given.value n) ∧
    (∀ (g : Goal Float) (o : Objective Float), g.resolve = .ok o ↔
      g = .objective o ∨ ∃ q : Quantity Float, g = .bare q.literal ∧ Objective.makeInfinite q = .ok o) ∧
    (∀ (t : K) {given : List (Outcome (Extended K) (List (Outcome (Extended K) (ActionArrays (Extended K)))))} {f},
      (∀ row, .ok row ∈ given → ∀ c, .ok c ∈ row → c.WellShaped) → FlatModel.build (.finite t) given = .ok f →
      ∀ s < f.stateCount, ∃ k : Nat, 0 < k ∧ f.actionCount (s : Nat) = .ok (k : Int) ∧ ∀ a < k, ∃ us,
        f.transitions (s : Nat) (a : Nat) = .ok us ∧ Weighs t (us.map (·.probability.value))) ∧
    ∀ (t : K) (rows : List (List (Columns (Extended K)))),
      (∃ f, FlatModel.build (.finite t) (rows.map fun row => .ok (row.map fun c => .ok (.ofColumns c))) = .ok f) ↔
        rows ≠ [] ∧ ∀ row ∈ rows, row ≠ [] ∧ ∀ c ∈ row,
          c.Even ∧ c.next ≠ [] ∧ c.Inside rows.length ∧ Weighs t c.probability := by
  refine ⟨fun given o => Objective.makeInfinite_ok, fun given horizon o => Objective.makeFinite_ok,
    fun g o => Goal.resolve_ok, fun t given f shaped built s inside => ?_, fun t rows => FlatModel.build_weighs⟩
  exact (FlatModel.build_checked shaped built).weighs inside

def Columns.unknown : Columns (Extended ℚ) := ⟨[0, 0], [.finite (1 / 2), .nan], [.finite 1, .finite 1]⟩

theorem Columns.unknown_weighs : Weighs (1 / 10 ^ 6) unknown.probability := by
  refine ⟨fun p member => ?_, .inl (by decide)⟩
  rcases List.mem_pair.mp member with rfl | rfl
  · exact .finite (by norm_num)
  · exact .nan

theorem Columns.unknown_inside : unknown.Even ∧ unknown.next ≠ [] ∧ unknown.Inside 1 :=
  ⟨⟨rfl, rfl⟩, by decide, by simp [Inside, unknown]⟩

theorem accepted_numbers_unknown :
    ∃ f, FlatModel.build (.finite (1 / 10 ^ 6)) [.ok [.ok (.ofColumns Columns.unknown)]] = .ok f ∧
      ∀ s < f.stateCount, ∃ k : Nat, 0 < k ∧ f.actionCount (s : Nat) = .ok (k : Int) ∧ ∀ a < k, ∃ us,
        f.transitions (s : Nat) (a : Nat) = .ok us ∧ Weighs (1 / 10 ^ 6) (us.map (·.probability.value)) := by
  obtain ⟨_, _, _, weighs, builds⟩ := accepted_numbers (K := ℚ)
  obtain ⟨even, nonempty, inside⟩ := Columns.unknown_inside
  obtain ⟨f, built⟩ := (builds (1 / 10 ^ 6) [[Columns.unknown]]).mpr (by
    simp only [List.forall_mem_singleton]
    exact ⟨by simp, by simp, even, nonempty, inside, Columns.unknown_weighs⟩)
  refine ⟨f, built, weighs (1 / 10 ^ 6) (fun row member c inRow => ?_) built⟩
  obtain rfl := Except.ok.inj (List.mem_singleton.mp member)
  obtain rfl := Except.ok.inj (List.mem_singleton.mp inRow)
  exact ActionArrays.ofColumns_shaped _

-- A NaN is neither at least zero nor below one.
theorem nan_accepted : Objective.makeInfinite (.real .nan : Quantity (Extended ℚ)) = .ok (.infinite .nan) ∧
    Objective.makeFinite (.real .nan : Quantity (Extended ℚ)) (.int 1) = .ok (.finite .nan 1) ∧
    Scalar.le Scalar.zero (.nan : Extended ℚ) = false ∧ Scalar.lt (.nan : Extended ℚ) Scalar.one = false ∧
    ∃ f, FlatModel.build FlatModel.defaultTolerance [.ok [.ok (.ofColumns Columns.unknown)]] = .ok f ∧
      f.transitions 0 0 = .ok [⟨.index 0, .real (.finite (1 / 2)), .real (.finite 1)⟩,
        ⟨.index 0, .real .nan, .real (.finite 1)⟩] := by
  obtain ⟨even, nonempty, inside⟩ := Columns.unknown_inside
  obtain ⟨bounded, balanced⟩ := Columns.weighs.mpr Columns.unknown_weighs
  have fits : Columns.unknown.Fits 1 (.finite (1 / 10 ^ 6)) := ⟨even, nonempty, inside, bounded, balanced⟩
  rw [← defaultTolerance_exact] at fits
  have each : ∀ row ∈ [[Columns.unknown]], row ≠ [] ∧ ∀ c ∈ row,
      (ActionArrays.ofColumns c).Admissible [[Columns.unknown]].length FlatModel.defaultTolerance := by
    simpa using fits.admissible
  obtain ⟨f, built, lists⟩ := FlatModel.build_lists (by simp) each
  exact ⟨rfl, rfl, rfl, rfl, f, built, lists.outcomes 0 Nat.one_pos 0 Nat.one_pos⟩

end MarkovDecision
