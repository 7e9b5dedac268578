import MarkovDecision.Proofs.TransienceSolution

namespace MarkovDecision

variable {n : Nat} {K : Type} [Field K] [LinearOrder K] [FloorRing K]

-- A backend that reports an optimum if and only if there is one reports an optimal solution with it.
structure Backend.Answers (b : Backend (Extended K)) (settings : Settings (Extended K)) (n : Nat)
    (direction : Direction) (p : LinearProgram (Extended K)) : Prop extends
    b.Decides settings n direction p where
  solution : ∀ r, b.solve settings.backend direction p = .ok r → r.isOptimal = true →
    ∃ x : Fin n → K, r.Reports p x ∧ p.Optimal direction x

variable [IsStrictOrderedRing K] {m : Model (Extended K)} {P : Process n K} {tolerance : Extended K}
  {settings : Settings (Extended K)} {b : Backend (Extended K)} {r : BackendReport (Extended K)}

theorem total_accepted (described : m.Describes P) (stochastic : P.Stochastic)
    (tolerant : settings.bindingTolerance = some tolerance)
    (answers : b.Answers settings n .minimise (P.payPlan P.reward).program.program)
    (solved : b.solve settings.backend .minimise (P.payPlan P.reward).program.program = .ok r)
    (accepted : r.isOptimal = true) : ∃ result v,
      (solveByProgram m .total settings (.ok b)).Yields result ∧
      result.value = .ofVector (exactVector v) ∧ P.Least P.reward v := by
  have loaded := totalProgram_exact described stochastic
  obtain ⟨v, reports, optimal⟩ := answers.solution r solved accepted
  obtain ⟨ys, multipliers⟩ := reports.multipliers
  obtain ⟨d, recovered, _⟩ := (P.payPlan P.reward).recoverPolicy_within tolerance v ys
  rw [← tolerant] at recovered
  have run := solveByProgram_yields (fun _ _ same => by cases same) loaded solved answers.counted
    reports.status reports.solution multipliers recovered reports.value
  exact ⟨_, v, run, rfl, (payPlan_optimal P.reward v).mp optimal⟩

theorem total_returned (described : m.Describes P) (stochastic : P.Stochastic)
    (tolerant : settings.bindingTolerance = some tolerance)
    (answers : b.Answers settings n .minimise (P.payPlan P.reward).program.program)
    {j j' : Journal (Extended K)} {result : ProgramSolution (Extended K)}
    (ran : (solveByProgram m .total settings (.ok b)).runOn j = (.ok result, j')) :
    ∃ v, result.value = .ofVector (exactVector v) ∧ P.Least P.reward v := by
  obtain ⟨r, solved, _⟩ := answers.report
  cases accepted : r.isOptimal with
  | true =>
    obtain ⟨found, v, run, value, least⟩ :=
      total_accepted described stochastic tolerant answers solved accepted
    obtain ⟨k, again⟩ := run j
    rw [ran] at again
    cases again
    exact ⟨v, value, least⟩
  | false =>
    obtain ⟨k, failed⟩ := solveByProgram_rejects (fun _ _ same => by cases same)
      (totalProgram_exact described stochastic) solved answers.counted accepted j
    rw [ran] at failed
    cases failed

-- The program has an optimum if every policy is transient; and where it has one some policy is
-- transient, and the optimum is the greatest expected total reward of a transient policy.
theorem solveByProgram_total (described : m.Describes P) (stochastic : P.Stochastic)
    (tolerant : settings.bindingTolerance = some tolerance)
    (every : ∀ c, StateProgram.everyTransience m = .ok c → b.Decides settings n .minimise c.program)
    (one : ∀ c, StateProgram.someTransience m = .ok c → b.Decides settings n .maximise c.program)
    (value : ∀ c, StateProgram.value m (.objective .total) = .ok c →
      b.Answers settings n .minimise c.program) :
    (∀ k k', (everyTransient m settings (.ok b)).runOn k = (.ok true, k') →
      ∀ j, ∃ result j', (solveByProgram m .total settings (.ok b)).runOn j = (.ok result, j')) ∧
    ∀ j result j', (solveByProgram m .total settings (.ok b)).runOn j = (.ok result, j') →
      (∀ k, ∃ k', (someTransient m settings (.ok b)).runOn k = (.ok true, k')) ∧
      ∃ v, result.value = .ofVector (exactVector v) ∧
        (∃ d : P.Selection, P.Transient d ∧ P.Totals d v) ∧
        ∀ e : P.Selection, P.Transient e → ∃ u, P.Totals e u ∧ ∀ s, u s ≤ v s := by
  have answers := value _ (totalProgram_exact described stochastic)
  constructor
  · intro k k' answered j
    have loaded := everyTransience_exact described stochastic
    obtain ⟨q, asked, agrees⟩ := (every _ loaded).report
    obtain ⟨_, replied⟩ := everyTransient_yields loaded asked (every _ loaded).counted k
    have yes : q.isOptimal = true := by
      rw [answered] at replied
      exact (Except.ok.inj (congrArg Prod.fst replied)).symm
    have all := (payPlan_optimum stochastic).mp (agrees.mp yes)
    obtain ⟨v, least⟩ := Process.exists_least_of_all stochastic all P.reward
    obtain ⟨r, solved, optimal⟩ := answers.report
    obtain ⟨result, _, run, _⟩ := total_accepted described stochastic tolerant answers solved
      (optimal.mpr ⟨v, (payPlan_optimal P.reward v).mpr least⟩)
    exact ⟨result, run j⟩
  · intro j result j' ran
    obtain ⟨v, known, least⟩ := total_returned described stochastic tolerant answers ran
    have greatest := Process.least_total stochastic least
    obtain ⟨d, transient, _⟩ := greatest.1
    refine ⟨fun k => ?_, v, known, greatest⟩
    have loaded := someTransience_exact described stochastic
    obtain ⟨q, asked, agrees⟩ := (one _ loaded).report
    have yes : q.isOptimal = true := agrees.mpr ((clockPlan_optimum stochastic).mpr ⟨d, transient⟩)
    rw [← yes]
    exact someTransient_yields loaded asked (one _ loaded).counted k

theorem departingBackend_total (settings : Settings (Extended ℚ)) {c : StateProgram (Extended ℚ)}
    (loaded : StateProgram.value (.table Process.departing.table) (.objective .total) = .ok c) :
    Process.departingBackend.Answers settings 2 .minimise c.program := by
  have known := totalProgram_exact (table_describes Process.departing) Process.departing_stochastic
  obtain rfl := Except.ok.inj (known.symm.trans loaded)
  have optimal := (payPlan_optimal _ _).mpr Process.departing_least
  refine ⟨departingBackend_decides settings .minimise ⟨_, optimal⟩, fun r solved _ => ⟨![2, 0], ?_, optimal⟩⟩
  obtain rfl := Except.ok.inj solved
  refine ⟨rfl, rfl, ⟨some #[], rfl⟩, ?_⟩
  rw [RowPlan.program_cost, Fin.sum_univ_two]
  have total : (2 : ℚ) = ![2, 0] 0 + ![2, 0] 1 := by norm_num
  exact congrArg (fun x => Except.ok (Extended.finite x)) total

theorem solveByProgram_total_departing : ∃ result j v,
    (solveByProgram (.table Process.departing.table) .total (.quiet 10 1 (1 / 4))
      (.ok Process.departingBackend)).runOn Journal.empty = (.ok result, j) ∧
    result.value = .ofVector (exactVector v) ∧
    (∃ d, Process.departing.Transient d ∧ Process.departing.Totals d v) ∧
    ∀ e, Process.departing.Transient e → ∃ u, Process.departing.Totals e u ∧ ∀ s, u s ≤ v s := by
  let settings : Settings (Extended ℚ) := .quiet 10 1 (1 / 4)
  have described := table_describes Process.departing
  have stochastic := Process.departing_stochastic
  have tolerant : settings.bindingTolerance = some (.finite (1 / 4)) := rfl
  obtain ⟨returns, greatest⟩ := solveByProgram_total described stochastic tolerant
    (fun _ => departingBackend_every settings) (fun _ => departingBackend_some settings)
    fun _ => departingBackend_total settings
  have loaded := everyTransience_exact described stochastic
  have decides := departingBackend_every settings loaded
  obtain ⟨q, asked, agrees⟩ := decides.report
  obtain ⟨k, answered⟩ := everyTransient_yields loaded asked decides.counted Journal.empty
  rw [agrees.mpr ((payPlan_optimum stochastic).mpr Process.departing_transient)] at answered
  obtain ⟨result, j, ran⟩ := returns _ k answered Journal.empty
  obtain ⟨_, v, value, best⟩ := greatest _ _ _ ran
  exact ⟨result, j, v, ran, value, best⟩

end MarkovDecision
