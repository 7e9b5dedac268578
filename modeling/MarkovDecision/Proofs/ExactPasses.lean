import MarkovDecision.Number.Norm
import MarkovDecision.Proofs.PolicyRule

namespace MarkovDecision

variable {n : Nat} {K : Type} [Field K] [LinearOrder K] [FloorRing K]

section Passes

variable {m : Model (Extended K)} {P : Process n K} {γ : K} {goal : Goal (Extended K)}
  {schedule : Schedule} {parts : List (List Nat)}

theorem columnar_choice (described : m.Describes P) (discount : goal.discount = .ok (.finite γ))
    (v : Reader (Extended K)) : ∀ f, m = .flat f → ∀ s < m.stateCount,
      f.greedyChoice (.finite γ) s v = m.greedyChoice goal s v := by
  intro f flat s inside
  rw [described.states] at inside
  subst flat
  refine FlatModel.greedyChoice_eq described.columnar discount v (P.hasAction ⟨s, inside⟩)
    (described.actions ⟨s, inside⟩) fun a valid => ?_
  obtain ⟨ts, listed, _⟩ := described.outcomes ⟨s, inside⟩ ⟨a, valid⟩
  exact ⟨ts, listed⟩

theorem choices_exact (described : m.Describes P) (discount : goal.discount = .ok (.finite γ))
    (v : Fin n → K) : ∀ s < m.stateCount, m.greedyChoice goal s (Reader.ofArray (exactVector v))
      = .ok ((exactVector (P.bellman γ v)).getD s .nan, (P.actionArray (P.greedy γ v)).getD s 0) := by
  intro s inside
  rw [described.states] at inside
  rw [greedyChoice_exact described discount v ⟨s, inside⟩]
  simp [Array.getD, exactVector, Process.actionArray, inside]

theorem values_exact (described : m.Describes P) (discount : goal.discount = .ok (.finite γ))
    {p : Policy (Extended K)} (valid : p.validate m none = .ok ())
    (stationary : p.isStationary = true) (exact : p.SumsToOne) (t : Int) (v : Fin n → K) :
    ∀ s < m.stateCount, m.policyValue goal t s p (Reader.ofArray (exactVector v))
      = .ok ((exactVector (P.follow γ (p.rule P) v)).getD s .nan) := by
  intro s inside
  rw [described.states] at inside
  rw [policyValue_exact described valid stationary exact.weights discount t v ⟨s, inside⟩]
  simp [Array.getD, exactVector, inside]

theorem bellman_exact (described : m.Describes P) (discount : goal.discount = .ok (.finite γ))
    (cut : (schedule.chunks m.stateCount : Outcome (Extended K) _) = .ok parts) (v : Fin n → K) :
    m.bellman goal (exactVector v) schedule
      = .ok ⟨exactVector (P.bellman γ v), P.actionArray (P.greedy γ v)⟩ := by
  rw [Model.bellman_ok discount cut
    (columnar_choice described discount (Reader.ofArray (exactVector v))) _ _
    (choices_exact described discount v), ofFn_getD (by simp [described.states]),
    ofFn_getD (by simp [described.states])]

theorem followed_exact (described : m.Describes P) (discount : goal.discount = .ok (.finite γ))
    (cut : (schedule.chunks m.stateCount : Outcome (Extended K) _) = .ok parts)
    {p : Policy (Extended K)} (valid : p.validate m none = .ok ())
    (stationary : p.isStationary = true) (exact : p.SumsToOne) (t : Int) (v : Fin n → K) :
    m.followed goal t (exactVector v) p schedule = .ok (exactVector (P.follow γ (p.rule P) v)) := by
  rw [Model.followed_ok cut _ (values_exact described discount valid stationary exact t v),
    ofFn_getD (by simp [described.states])]

end Passes

section Norms

omit [Field K] [LinearOrder K] [FloorRing K] in
theorem foldl_bounds {pick : Extended K → Extended K → Extended K} {keep : K → K → K}
    {bounded : K → K → Prop} (picks : ∀ x y, pick (.finite x) (.finite y) = .finite (keep x y))
    (both : ∀ x y b, bounded (keep x y) b ↔ bounded x b ∧ bounded y b) (xs : List K) :
    ∀ start, ∃ r, (xs.map Extended.finite).foldl pick (.finite start) = .finite r ∧
      ∀ b, bounded r b ↔ bounded start b ∧ ∀ x ∈ xs, bounded x b := by
  induction xs with
  | nil => exact fun start => ⟨start, rfl, by simp⟩
  | cons x rest ih =>
    intro start
    obtain ⟨r, found, least⟩ := ih (keep start x)
    refine ⟨r, ?_, fun b => ?_⟩
    · rw [List.map_cons, List.foldl_cons, picks]
      exact found
    · rw [least, both, and_assoc, List.forall_mem_cons]

theorem foldl_larger (xs : List K) (start : K) :
    ∃ r, (xs.map Extended.finite).foldl Scalar.larger (.finite start) = .finite r ∧
      ∀ b, r ≤ b ↔ start ≤ b ∧ ∀ x ∈ xs, x ≤ b :=
  foldl_bounds Extended.larger_finite (fun _ _ _ => max_le_iff) xs start

theorem foldl_smaller (xs : List K) (start : K) :
    ∃ r, (xs.map Extended.finite).foldl Scalar.smaller (.finite start) = .finite r ∧
      ∀ b, r ≥ b ↔ start ≥ b ∧ ∀ x ∈ xs, x ≥ b :=
  foldl_bounds Extended.smaller_finite (fun _ _ _ => le_min_iff) xs start

theorem differences_exact (u v : Fin n → K) :
    List.zipWith (· - ·) (exactVector u).toList (exactVector v).toList
      = (List.ofFn fun s => u s - v s).map Extended.finite := by
  rw [exactVector_toList, exactVector_toList]
  refine List.ext_getElem (by simp) fun i _ _ => ?_
  simp

variable [IsStrictOrderedRing K]

theorem spanSeminorm_exact (xs : List K) :
    ∃ low high, spanSeminorm (xs.map Extended.finite) = .finite (high - low) ∧ (∀ x ∈ xs, low ≤ x ∧ x ≤ high) ∧
      ∀ b, high - low ≤ b ↔ 0 ≤ b ∧ ∀ x ∈ xs, ∀ y ∈ xs, x - y ≤ b := by
  cases xs with
  | nil => exact ⟨0, 0, by rw [sub_zero]; exact Extended.zero_eq, by simp⟩
  | cons x rest =>
    obtain ⟨high, largest, above⟩ := foldl_larger rest x
    obtain ⟨low, smallest, below⟩ := foldl_smaller rest x
    have above (b : K) : high ≤ b ↔ ∀ y ∈ x :: rest, y ≤ b := by rw [above, List.forall_mem_cons]
    have below (b : K) : b ≤ low ↔ ∀ y ∈ x :: rest, b ≤ y := by
      rw [List.forall_mem_cons]
      exact below b
    have largest_of := (above high).mp (le_refl high)
    have smallest_of := (below low).mp (le_refl low)
    refine ⟨low, high, ?_, fun y member => ⟨smallest_of y member, largest_of y member⟩, fun b => ⟨fun wide => ?_, ?_⟩⟩
    · rw [List.map_cons, spanSeminorm, largest, smallest, Extended.finite_sub]
    · refine ⟨?_, fun y first z second => ?_⟩
      · linarith [largest_of x List.mem_cons_self, smallest_of x List.mem_cons_self]
      · linarith [largest_of y first, smallest_of z second]
    · rintro ⟨_, wide⟩
      have reach : high ≤ b + low := (above _).mpr fun y first => by
        have under : y - b ≤ low := (below _).mpr fun z second => by linarith [wide y first z second]
        linarith
      linarith

theorem spanSeminorm_change (u v : Fin n → K) :
    ∃ low high, spanSeminorm (List.zipWith (· - ·) (exactVector u).toList (exactVector v).toList)
        = .finite (high - low) ∧ (∀ s, low ≤ u s - v s ∧ u s - v s ≤ high) ∧
      ∀ b, high - low ≤ b ↔ 0 ≤ b ∧ ∀ s t, (u s - v s) - (u t - v t) ≤ b := by
  obtain ⟨low, high, found, bounds, least⟩ := spanSeminorm_exact (List.ofFn fun s => u s - v s)
  rw [differences_exact]
  refine ⟨low, high, found, fun s => bounds _ (List.mem_ofFn.mpr ⟨s, rfl⟩), fun b => (least b).trans ?_⟩
  simp only [List.forall_mem_ofFn_iff]

theorem supNorm_exact (xs : List K) :
    ∃ r, supNorm (xs.map Extended.finite) = .finite r ∧ ∀ b, r ≤ b ↔ 0 ≤ b ∧ ∀ x ∈ xs, |x| ≤ b := by
  cases xs with
  | nil => exact ⟨0, Extended.zero_eq, by simp⟩
  | cons x rest =>
    obtain ⟨r, found, least⟩ := foldl_larger (rest.map fun y => |y|) |x|
    have sizes : (rest.map Extended.finite).map Scalar.abs
        = (rest.map fun y => |y|).map Extended.finite := by
      simp [Function.comp_def]
    refine ⟨r, ?_, fun b => ?_⟩
    · rw [List.map_cons, supNorm, Extended.abs_finite, sizes]
      exact found
    · rw [least, List.forall_mem_map, List.forall_mem_cons]
      exact ⟨fun bound => ⟨(abs_nonneg x).trans bound.1, bound⟩, And.right⟩

theorem supNorm_change (u v : Fin n → K) :
    ∃ r, supNorm (List.zipWith (· - ·) (exactVector u).toList (exactVector v).toList) = .finite r ∧
      ∀ b, r ≤ b ↔ 0 ≤ b ∧ ∀ s, |u s - v s| ≤ b := by
  obtain ⟨r, found, least⟩ := supNorm_exact (List.ofFn fun s => u s - v s)
  rw [differences_exact]
  refine ⟨r, found, fun b => (least b).trans ?_⟩
  rw [List.forall_mem_ofFn_iff]

end Norms

end MarkovDecision
