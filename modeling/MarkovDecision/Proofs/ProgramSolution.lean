import MarkovDecision.LinearProgram.Solve
import MarkovDecision.Policy.Validation
import MarkovDecision.Proofs.PolicyRecovery
import MarkovDecision.Proofs.PolicyRule

namespace MarkovDecision

variable {n : Nat} {K : Type} [Field K] [LinearOrder K]

theorem Process.value_of_slack [IsStrictOrderedRing K] {P : Process n K} {γ b : K} {best w : Fin n → K}
    {d : P.Selection} (stochastic : P.Stochastic) (nonneg : 0 ≤ γ) (below : γ < 1)
    (optimal : P.bellman γ best = best) (value : P.follow γ (P.sure d) w = w)
    (within : ∀ s, best s - P.actionValue γ best s (d s) ≤ b) (s : Fin n) : best s - b / (1 - γ) ≤ w s := by
  have change (t : Fin n) : |P.follow γ (P.sure d) best t - best t| ≤ b := by
    have above : P.actionValue γ best t (d t) ≤ best t :=
      (actionValue_le_bellman (d t)).trans (congrFun optimal t).le
    rw [follow_sure, abs_sub_comm, abs_of_nonneg (sub_nonneg.mpr above)]
    exact within t
  have near := (follow_contracts stochastic (P.sure_distribution d) nonneg).distance below value change s
  linarith [(abs_le.mp near).2]

variable [FloorRing K]

structure BackendReport.Reports (r : BackendReport (Extended K)) (p : LinearProgram (Extended K))
    (x : Fin n → K) : Prop where
  status : r.status = .text ProgramOutcome.optimalName
  solution : r.solution = .ok (.ofVector (exactVector x))
  multipliers : ∃ ys : Option (Array (Extended K)), r.multipliers = .ok (ys.map .ofVector)
  value : r.value = .ok (p.cost x)

-- A backend finds the minimum of a program that has one, and counts it where it is to be printed.
structure Backend.Minimises (b : Backend (Extended K)) (settings : Settings (Extended K)) (n : Nat)
    (p : LinearProgram (Extended K)) : Prop where
  optimum : (∃ x : Fin n → K, p.Minimal x) → ∃ r, ∃ x : Fin n → K,
    b.solve settings.backend .minimise p = .ok r ∧ r.Reports p x ∧ p.Minimal x
  counted : settings.verbose = true → ∃ counts, b.size p = .ok counts

section Consulting

variable {α : Type} [Scalar α] {settings : Settings α} {c : StateProgram α} {b : Backend α}
  {r : BackendReport α}

theorem StateProgram.consult_yields {direction : Direction}
    (solved : b.solve settings.backend direction c.program = .ok r)
    (counted : settings.verbose = true → ∃ counts, b.size c.program = .ok counts) :
    (c.consult b direction settings).Yields r := by
  have run : (do
      Journaled.call .optimize
      let report ← InPlace.lift (b.solve settings.backend direction c.program)
      Journaled.call .status
      return report : Journaled α (BackendReport α)).Yields r :=
    (Journaled.call_yields _).bind <| (InPlace.yields_lift solved).bind <|
      (Journaled.call_yields _).bind <| InPlace.yields_lift rfl
  have print : (do
      Journaled.call (.setObjective c.program.objective direction)
      Journaled.call .prepare
      if settings.verbose then
        Journaled.call .size
        let counts ← InPlace.lift (b.size c.program)
        Journaled.note (.programSize counts.1 counts.2)
      Journaled.call .optimize
      let report ← InPlace.lift (b.solve settings.backend direction c.program)
      Journaled.call .status
      return report : Journaled α (BackendReport α)).Yields r := by
    refine (Journaled.call_yields _).bind <| (Journaled.call_yields _).bind ?_
    by_cases verbose : settings.verbose = true
    · obtain ⟨counts, size⟩ := counted verbose
      rw [if_pos verbose]
      exact (Journaled.call_yields _).bind <| (InPlace.yields_lift size).bind <|
        (Journaled.note_yields _).bind run
    · rw [if_neg verbose]
      exact run
  refine (Journaled.call_yields _).bind ?_
  by_cases rowless : c.matrix.rows.isEmpty = true
  · rw [if_neg (by simp [rowless])]
    exact print
  · rw [if_pos (by simp [rowless])]
    exact (Journaled.call_yields _).bind print

theorem solveByProgram_yields {m : Model α} {o : Objective α} (endless : ∀ x k, o ≠ .finite x k)
    (loaded : StateProgram.value m (.objective o) = .ok c)
    (solved : b.solve settings.backend .minimise c.program = .ok r)
    (counted : settings.verbose = true → ∃ counts, b.size c.program = .ok counts)
    (optimum : r.status = .text ProgramOutcome.optimalName) {value : Tensor α}
    (solution : r.solution = .ok value) {ys : Multipliers α} (multipliers : r.multipliers = .ok ys)
    {policy : Policy α} (recovered : c.recoverPolicy value ys settings.bindingTolerance = .ok policy)
    {objective : α} (cost : r.value = .ok objective) :
    (solveByProgram m o settings (.ok b)).Yields ⟨value, policy, objective⟩ := by
  have accepted : r.isOptimal = true := by
    rw [BackendReport.isOptimal, optimum]
    rfl
  cases o with
  | finite x k => exact absurd rfl (endless x k)
  | base => cases loaded
  | _ =>
    refine (InPlace.yields_lift loaded).bind <| (InPlace.yields_lift rfl).bind <|
      (StateProgram.consult_yields solved counted).bind ?_
    rw [if_neg (by simp [accepted])]
    exact (Journaled.call_yields _).bind <| (InPlace.yields_lift solution).bind <|
      (Journaled.call_yields _).bind <| (InPlace.yields_lift multipliers).bind <|
      (InPlace.yields_lift recovered).bind <| (Journaled.call_yields _).bind <|
      (InPlace.yields_lift cost).bind <| InPlace.yields_lift rfl

theorem solveByProgram_rejects {m : Model α} {o : Objective α} (endless : ∀ x k, o ≠ .finite x k)
    (loaded : StateProgram.value m (.objective o) = .ok c)
    (solved : b.solve settings.backend .minimise c.program = .ok r)
    (counted : settings.verbose = true → ∃ counts, b.size c.program = .ok counts)
    (refused : r.isOptimal = false) (j : Journal α) : ∃ j', (solveByProgram m o settings (.ok b)).runOn j
      = (.error (.notOptimal r.status r.message r.withheld), j') := by
  obtain ⟨k, ran⟩ := StateProgram.consult_yields solved counted j
  have opened : (InPlace.lift (StateProgram.value m (.objective o)) : Journaled α _).runOn j = (.ok c, j) := by
    rw [InPlace.runOn_lift, loaded]
  refine ⟨k.push (.backendCall .message), ?_⟩
  cases o with
  | finite x k => exact absurd rfl (endless x k)
  | base => cases loaded
  | _ =>
    refine (InPlace.runOn_bind_ok opened).trans <|
      (InPlace.runOn_bind_ok (InPlace.runOn_lift (.ok b) j)).trans <| (InPlace.runOn_bind_ok ran).trans ?_
    rw [refused]
    rfl

end Consulting

variable [IsStrictOrderedRing K] {m : Model (Extended K)} {P : Process n K} {γ tolerance : K}
  {settings : Settings (Extended K)} {b : Backend (Extended K)}

-- The run ends well with the optimal value, its sum, and a policy of actions within the tolerance.
theorem solveByProgram_correct (described : m.Describes P) (stochastic : P.Stochastic) (nonneg : 0 ≤ γ)
    (below : γ < 1) (tolerant : settings.bindingTolerance = some (.finite tolerance))
    (valid : 0 ≤ tolerance)
    (correct : ∀ c, StateProgram.value m (.objective (.infinite (.finite γ))) = .ok c →
      b.Minimises settings n c.program) (j : Journal (Extended K)) :
    ∃ result j' best w, ∃ d : P.Selection,
      (solveByProgram m (.infinite (.finite γ)) settings (.ok b)).runOn j = (.ok result, j') ∧
      IsUniqueFixpoint (P.bellman γ) best ∧ result.value = .ofVector (exactVector best) ∧
      result.objective = .finite (∑ s, best s) ∧
      result.policy = .stationary (P.actionArray d) ∧ result.policy.validate m none = .ok () ∧
      IsUniqueFixpoint (P.follow γ (P.sure d)) w ∧
      ∀ s, best s - tolerance * Finset.univ.fold max 1 (fun t => |best t|) / (1 - γ) ≤ w s := by
  obtain ⟨best, optimal⟩ := Process.exists_optimal stochastic nonneg below
  have fixed : P.bellman γ best = best := (optimal best).mpr rfl
  have loaded := valueProgram_exact described γ
  have minimal := minimal_iff stochastic nonneg below fixed
  obtain ⟨r, x, solved, reports, least⟩ := (correct _ loaded).optimum ⟨best, (minimal best).mpr rfl⟩
  obtain rfl := (minimal x).mp least
  obtain ⟨ys, multipliers⟩ := reports.multipliers
  obtain ⟨d, recovered, within⟩ := StateProgram.recoverPolicy_within P γ tolerance x ys fun s =>
    ⟨P.greedy γ x s, by
      rw [Process.actionValue_greedy, fixed, sub_self]
      exact mul_nonneg valid (zero_le_one.trans (le_max_left _ _))⟩
  obtain ⟨w, value⟩ := Process.exists_value stochastic (P.sure_distribution d) nonneg below
  rw [← tolerant] at recovered
  obtain ⟨j', ran⟩ := solveByProgram_yields (fun _ _ same => by cases same) loaded solved
    (correct _ loaded).counted reports.status reports.solution multipliers recovered reports.value j
  refine ⟨_, j', x, w, d, ran, optimal, rfl, RowPlan.program_cost _ x, rfl, actionArray_valid described d, value, ?_⟩
  refine Process.value_of_slack stochastic nonneg below fixed ((value w).mpr rfl) fun s => ?_
  refine (within s).trans (mul_le_mul_of_nonneg_left (max_le ?_ ?_) valid)
  · exact (Finset.le_fold_max _).mpr (Or.inl le_rfl)
  · exact (Finset.le_fold_max _).mpr (Or.inr ⟨s, Finset.mem_univ s, le_rfl⟩)

def Process.leavingBackend : Backend (Extended ℚ) := .immediate fun _ =>
  .optimal [.finite 2, .finite 0] (.finite 2) [.finite 0, .finite (-1), .finite (-3), .finite 0]

theorem leavingBackend_minimises : Process.leavingBackend.Minimises (.quiet 10 1 (1 / 4)) 2
    (Process.leaving.valuePlan (1 / 2)).program.program := by
  have optimal : Process.leaving.bellman (1 / 2) ![2, 0] = ![2, 0] := by decide +kernel
  have minimal := minimal_iff Process.leaving_stochastic (by norm_num) (by norm_num) optimal
  refine ⟨fun _ => ⟨_, ![2, 0], rfl, ⟨rfl, rfl, ⟨some _, rfl⟩, ?_⟩, (minimal _).mpr rfl⟩, fun _ => ⟨_, rfl⟩⟩
  rw [RowPlan.program_cost, Fin.sum_univ_two]
  have total : (2 : ℚ) = ![2, 0] 0 + ![2, 0] 1 := by norm_num
  exact congrArg (fun x => Except.ok (Extended.finite x)) total

theorem solveByProgram_correct_leaving : ∃ result j best,
    (solveByProgram (.table Process.leaving.table) (.infinite (.finite (1 / 2))) (.quiet 10 1 (1 / 4))
      (.ok Process.leavingBackend)).runOn Journal.empty = (.ok result, j) ∧
    IsUniqueFixpoint (Process.leaving.bellman (1 / 2)) best ∧ result.value = .ofVector (exactVector best) ∧
    result.objective = .finite (∑ s, best s) ∧
    result.policy.validate (.table Process.leaving.table) none = .ok () := by
  have known := valueProgram_exact (table_describes Process.leaving) (1 / 2)
  have tolerant : (Settings.quiet 10 1 (1 / 4) : Settings (Extended ℚ)).bindingTolerance
      = some (.finite (1 / 4)) := rfl
  obtain ⟨result, j, best, _, _, ran, optimal, value, objective, _, valid, _⟩ :=
    solveByProgram_correct (table_describes Process.leaving) Process.leaving_stochastic (γ := 1 / 2)
      (by norm_num) (by norm_num) tolerant (by norm_num) (fun c loaded => by
        obtain rfl := Except.ok.inj (known.symm.trans loaded)
        exact leavingBackend_minimises) Journal.empty
  exact ⟨result, j, best, ran, optimal, value, objective, valid⟩

end MarkovDecision
