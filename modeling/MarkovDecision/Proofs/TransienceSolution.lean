import MarkovDecision.Proofs.ProgramSolution
import MarkovDecision.Proofs.UndiscountedPrograms

namespace MarkovDecision

variable {n : Nat} {K : Type} [Field K] [LinearOrder K] [FloorRing K]

-- A backend reports an optimum of a program if and only if there is one, and counts the program where
-- it is to be printed.
structure Backend.Decides (b : Backend (Extended K)) (settings : Settings (Extended K)) (n : Nat)
    (direction : Direction) (p : LinearProgram (Extended K)) : Prop where
  report : ∃ r, b.solve settings.backend direction p = .ok r ∧
    (r.isOptimal = true ↔ ∃ x : Fin n → K, p.Optimal direction x)
  counted : settings.verbose = true → ∃ counts, b.size p = .ok counts

section Answers

variable {α : Type} [Scalar α] {m : Model α} {settings : Settings α} {c : StateProgram α} {b : Backend α}
  {r : BackendReport α}

theorem someTransient_yields (loaded : StateProgram.someTransience m = .ok c)
    (solved : b.solve settings.backend .maximise c.program = .ok r)
    (counted : settings.verbose = true → ∃ counts, b.size c.program = .ok counts) :
    (someTransient m settings (.ok b)).Yields r.isOptimal :=
  (InPlace.yields_lift rfl).bind <| (InPlace.yields_lift loaded).bind <|
    (StateProgram.consult_yields solved counted).bind <| InPlace.yields_lift rfl

theorem everyTransient_yields (loaded : StateProgram.everyTransience m = .ok c)
    (solved : b.solve settings.backend .minimise c.program = .ok r)
    (counted : settings.verbose = true → ∃ counts, b.size c.program = .ok counts) :
    (everyTransient m settings (.ok b)).Yields r.isOptimal :=
  (InPlace.yields_lift rfl).bind <| (InPlace.yields_lift loaded).bind <|
    (StateProgram.consult_yields solved counted).bind <| InPlace.yields_lift rfl

end Answers

variable [IsStrictOrderedRing K] {m : Model (Extended K)} {P : Process n K}
  {settings : Settings (Extended K)} {b : Backend (Extended K)}

theorem clockPlan_optimum (stochastic : P.Stochastic) :
    (∃ v : Fin n → K, P.clockPlan.program.program.Optimal .maximise v) ↔ ∃ d : P.Selection, P.Transient d := by
  rw [← Process.some_transient_iff stochastic]
  constructor
  · rintro ⟨v, optimal⟩
    exact ⟨-v, (clockPlan_optimal v).mp optimal⟩
  · rintro ⟨v, least⟩
    refine ⟨-v, (clockPlan_optimal (-v)).mpr ?_⟩
    rwa [neg_neg]

theorem payPlan_optimum (stochastic : P.Stochastic) :
    (∃ v : Fin n → K, (P.payPlan fun _ _ => 1).program.program.Optimal .minimise v) ↔
      ∀ d : P.Selection, P.Transient d := by
  rw [← Process.every_transient_iff stochastic]
  exact exists_congr fun v => payPlan_optimal _ v

def Process.departingBackend : Backend (Extended ℚ) where
  accepts _ := .ok ()
  size := Backend.countOf
  solve _ direction _ := .ok <| .ofOutcome (match direction with
    | .minimise => .optimal [.finite 2, .finite 0] (.finite 2) []
    | .maximise => .optimal [.finite 1, .finite 0] (.finite 1) []) .null

section Departing

open Process

theorem departingBackend_decides (settings : Settings (Extended ℚ)) (direction : Direction)
    {p : LinearProgram (Extended ℚ)} (optimum : ∃ x : Fin 2 → ℚ, p.Optimal direction x) :
    departingBackend.Decides settings 2 direction p := by
  refine ⟨?_, fun _ => ⟨_, rfl⟩⟩
  cases direction with
  | minimise => exact ⟨_, rfl, fun _ => optimum, fun _ => rfl⟩
  | maximise => exact ⟨_, rfl, fun _ => optimum, fun _ => rfl⟩

theorem some_departing_transient : ∃ d, departing.Transient d :=
  ⟨fun s => ⟨0, departing.hasAction s⟩, departing_transient _⟩

theorem departingBackend_some (settings : Settings (Extended ℚ)) {c : StateProgram (Extended ℚ)}
    (loaded : StateProgram.someTransience (.table departing.table) = .ok c) :
    departingBackend.Decides settings 2 .maximise c.program := by
  have known := someTransience_exact (table_describes departing) departing_stochastic
  obtain rfl := Except.ok.inj (known.symm.trans loaded)
  exact departingBackend_decides _ _ ((clockPlan_optimum departing_stochastic).mpr some_departing_transient)

theorem departingBackend_every (settings : Settings (Extended ℚ)) {c : StateProgram (Extended ℚ)}
    (loaded : StateProgram.everyTransience (.table departing.table) = .ok c) :
    departingBackend.Decides settings 2 .minimise c.program := by
  have known := everyTransience_exact (table_describes departing) departing_stochastic
  obtain rfl := Except.ok.inj (known.symm.trans loaded)
  exact departingBackend_decides _ _ ((payPlan_optimum departing_stochastic).mpr departing_transient)

end Departing

theorem someTransient_correct (described : m.Describes P) (stochastic : P.Stochastic)
    (correct : ∀ c, StateProgram.someTransience m = .ok c → b.Decides settings n .maximise c.program)
    (j : Journal (Extended K)) : ∃ answer j',
      (someTransient m settings (.ok b)).runOn j = (.ok answer, j') ∧
      (answer = true ↔ ∃ d : P.Selection, P.Transient d) := by
  have loaded := someTransience_exact described stochastic
  obtain ⟨r, solved, optimal⟩ := (correct _ loaded).report
  obtain ⟨j', ran⟩ := someTransient_yields loaded solved (correct _ loaded).counted j
  exact ⟨r.isOptimal, j', ran, optimal.trans (clockPlan_optimum stochastic)⟩

theorem someTransient_correct_departing : ∃ j,
    (someTransient (.table Process.departing.table) (.quiet 10 1 (1 / 4))
      (.ok Process.departingBackend)).runOn Journal.empty = (.ok true, j) ∧
    ∃ d, Process.departing.Transient d := by
  obtain ⟨answer, j, ran, agrees⟩ := someTransient_correct (table_describes Process.departing)
    Process.departing_stochastic (fun _ => departingBackend_some (.quiet 10 1 (1 / 4))) Journal.empty
  obtain rfl := agrees.mpr some_departing_transient
  exact ⟨j, ran, some_departing_transient⟩

theorem everyTransient_correct (described : m.Describes P) (stochastic : P.Stochastic)
    (correct : ∀ c, StateProgram.everyTransience m = .ok c → b.Decides settings n .minimise c.program)
    (j : Journal (Extended K)) : ∃ answer j',
      (everyTransient m settings (.ok b)).runOn j = (.ok answer, j') ∧
      (answer = true ↔ ∀ d : P.Selection, P.Transient d) := by
  have loaded := everyTransience_exact described stochastic
  obtain ⟨r, solved, optimal⟩ := (correct _ loaded).report
  obtain ⟨j', ran⟩ := everyTransient_yields loaded solved (correct _ loaded).counted j
  exact ⟨r.isOptimal, j', ran, optimal.trans (payPlan_optimum stochastic)⟩

theorem everyTransient_correct_departing : ∃ j,
    (everyTransient (.table Process.departing.table) (.quiet 10 1 (1 / 4))
      (.ok Process.departingBackend)).runOn Journal.empty = (.ok true, j) ∧
    ∀ d, Process.departing.Transient d := by
  obtain ⟨answer, j, ran, agrees⟩ := everyTransient_correct (table_describes Process.departing)
    Process.departing_stochastic (fun _ => departingBackend_every (.quiet 10 1 (1 / 4))) Journal.empty
  obtain rfl := agrees.mpr Process.departing_transient
  exact ⟨j, ran, Process.departing_transient⟩

end MarkovDecision
