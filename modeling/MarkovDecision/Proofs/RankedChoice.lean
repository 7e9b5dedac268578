import MarkovDecision.Proofs.PolicyRule
import MarkovDecision.Proofs.ValueRows

namespace MarkovDecision

-- A choice in three steps, each of them for the case that the one before finds nothing.
structure StepwiseChoice {K : Type} [LE K] {count : Nat} (binding marked : Fin count → Prop) (q : Fin count → K)
    (k : Fin count) : Prop where
  first_marked : (∃ a, binding a ∧ marked a) → IsLeast {a | binding a ∧ marked a} k
  first_binding : (¬∃ a, binding a ∧ marked a) → (∃ a, binding a) → IsLeast {a | binding a} k
  first_greatest : (¬∃ a, binding a) → IsLeast {a | ∀ b, q b ≤ q a} k

variable {n : Nat} {K : Type} [Field K] [LinearOrder K] [IsStrictOrderedRing K]

section Choice

variable {count : Nat} {good : Fin count → Prop} {marks : Fin count → Bool} {q slack : Fin count → K} {x : K}
  {k : Fin count}

theorem StateProgram.Ranked.stepwise (ranked : StateProgram.Ranked good marks slack k)
    (short : ∀ a, slack a = x - q a) : StepwiseChoice good (fun a => marks a = true) q k := by
  constructor
  · rintro ⟨a, binds, marked⟩
    obtain ⟨binds, marked, lowest⟩ := ranked.first_marked a binds marked
    refine ⟨⟨binds, marked⟩, fun b other => ?_⟩
    by_contra below
    have unmarked := lowest b (not_le.mp below) other.1
    exact absurd other.2 (by simp [unmarked])
  · rintro none ⟨a, binds⟩
    have unmarked : ∀ a, good a → marks a = false := fun a binds =>
      Bool.eq_false_iff.mpr fun marked => none ⟨a, binds, marked⟩
    obtain ⟨binds, lowest⟩ := ranked.first_good unmarked a binds
    refine ⟨binds, fun b other => ?_⟩
    by_contra below
    exact lowest b (not_le.mp below) other
  · intro none
    have first := ranked.first_least (not_exists.mp none)
    simpa only [short, sub_le_sub_iff_left] using first

theorem StepwiseChoice.min_le {limit : K} {marked : Fin count → Prop}
    (chosen : StepwiseChoice (fun a => x - q a ≤ limit) marked q k)
    (some : (Finset.univ : Finset (Fin count)).Nonempty) : min (x - limit) (Finset.univ.sup' some q) ≤ q k := by
  by_cases any : ∃ a, x - q a ≤ limit
  · have binds : x - q k ≤ limit := by
      by_cases both : ∃ a, x - q a ≤ limit ∧ marked a
      · exact (chosen.first_marked both).1.1
      · exact (chosen.first_binding both any).1
    exact (min_le_left _ _).trans (sub_le_comm.mp binds)
  · have greatest := (chosen.first_greatest any).1
    exact (min_le_right _ _).trans (Finset.sup'_le some q fun a _ => greatest a)

end Choice

variable [FloorRing K] {m : Model (Extended K)} {P : Process n K} {γ : K}

-- The vector need not solve the value program, and the multipliers may be any. A binding action is
-- worth its state up to the tolerance, so the choice falls short of the better of the two by
-- nothing.
theorem StateProgram.recoverPolicy_stepwise (described : m.Describes P) {o : Objective (Extended K)}
    (discount : o.discount = .ok (.finite γ)) (tolerance : K) :
    ∃ c fixed, StateProgram.value m (.objective o) = .ok c ∧ m.Fixes o fixed ∧ c.LaidOut P fixed ∧
      ∀ (v : Fin n → K) (duals : Option (Array (Extended K))),
        ∃ (d : P.Selection) (q : (s : Fin n) → Fin (P.actionCount s) → K),
          c.recoverPolicy (.ofVector (exactVector v)) (duals.map .ofVector) (some (.finite tolerance))
            = .ok (.stationary (P.actionArray d)) ∧
          (Policy.stationary (P.actionArray d)).validate m none = .ok () ∧
          (∀ (s : Fin n) (a : Fin (P.actionCount s)),
            m.actionValue (.objective o) (s : Nat) (a : Nat) (Reader.ofArray (exactVector v)) = .ok (.finite (q s a))) ∧
          ∀ s, fixed s = false →
            min (v s - tolerance * max 1 |v s|) (Finset.univ.sup' (P.actions_nonempty s) (q s)) ≤ q s (d s) ∧
            StepwiseChoice (fun a => v s - q s a ≤ tolerance * max 1 |v s|)
              (fun a => Marked c.matrix.height duals (.finite tolerance) (c.rowOffsets.getD s 0 + a)) (q s) (d s) := by
  obtain ⟨fixed, fixes⟩ := Model.exists_fixes described o
  refine ⟨_, fixed, value_worth described discount fixes, fixes, RowPlan.program_laidOut _, fun v duals => ?_⟩
  have known : (Goal.objective o).discount = .ok (.finite γ) := discount
  obtain ⟨mark, marked, each⟩ := (P.worthPlan γ fixed).exists_mark duals (.finite tolerance)
  obtain ⟨d, recovered, ranked⟩ := (P.worthPlan γ fixed).recoverPolicy_preferred (.finite tolerance) v marked
  refine ⟨d, P.actionValue γ v, recovered, actionArray_valid described d, actionValue_exact described known v, ?_⟩
  intro s free
  have chosen := (ranked s free).stepwise (x := v s) (q := P.actionValue γ v s) fun a =>
    worthPlan_slack P γ fixed v ⟨s, a⟩
  simp only [RowPlan.binding_finite, worthPlan_slack, each s free] at chosen
  exact ⟨chosen.min_le (P.actions_nonempty s), chosen⟩

-- Staying is binding as well, but only leaving is marked.
theorem StateProgram.recoverPolicy_stepwise_lingering : ∃ c d,
    StateProgram.value (.table Process.lingering.table) (.objective .total) = .ok c ∧
    c.recoverPolicy (.ofVector (exactVector ![2, 0])) (some (.ofVector (exactVector ![0, -1])))
      (some (.finite (1 / 2))) = .ok (.stationary (Process.lingering.actionArray d)) ∧ (d 0 : Nat) = 1 := by
  have described := table_describes Process.lingering
  obtain ⟨c, fixed, loaded, fixes, laid, choices⟩ := recoverPolicy_stepwise described (o := .total) rfl (1 / 2)
  have free : fixed 0 = false := (Except.ok.inj (fixes 0)).symm
  have ended : fixed 1 = true := (Except.ok.inj (fixes 1)).symm
  obtain ⟨d, q, recovered, _, known, each⟩ := choices ![2, 0] (some (exactVector ![0, -1]))
  refine ⟨c, d, loaded, recovered, ?_⟩
  have rows : c.matrix.height = 2 := by
    have first := laid.next 0
    have second := laid.next 1
    rw [free] at first
    rw [ended] at second
    exact laid.last.symm.trans (second.trans (first.trans (by rw [Fin.val_zero, laid.first]; rfl)))
  let leave : Fin (Process.lingering.actionCount 0) := ⟨1, by decide⟩
  have worth : q 0 leave = 2 := by
    rw [Extended.finite.inj (Except.ok.inj ((known 0 leave).symm.trans (actionValue_exact described rfl _ 0 leave)))]
    decide +kernel
  have marks : Marked c.matrix.height (some (exactVector ![(0 : ℚ), -1])) (.finite (1 / 2))
      (c.rowOffsets.getD 0 0 + leave) :=
    ⟨_, .finite (-1), rfl, rows.symm, by rw [laid.first]; rfl, by decide +kernel⟩
  obtain ⟨⟨_, ys, y, same, _, place, beyond⟩, _⟩ :=
    (each 0 free).2.first_marked ⟨leave, by rw [worth]; decide +kernel, marks⟩
  cases same
  rw [Fin.val_zero, laid.first, Nat.zero_add] at place
  have bound : (d 0 : Nat) < 2 := (d 0).isLt
  rcases Nat.lt_succ_iff_lt_or_eq.mp bound with zero | one
  · rw [Nat.lt_one_iff.mp zero] at place
    cases place
    exact absurd beyond (by decide +kernel)
  · exact one

end MarkovDecision
