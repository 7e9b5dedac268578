import MarkovDecision.Proofs.ParallelIteration
import MarkovDecision.Proofs.StageMemory
import MarkovDecision.Proofs.StagePolicy

namespace MarkovDecision

variable {α : Type} [Scalar α]

section Discounts

variable {goal goal' : Goal α} (same : goal.discount = goal'.discount) (m : Model α)

include same

theorem Model.greedyChoice_discount (s : Int) (v : Reader α) : m.greedyChoice goal s v = m.greedyChoice goal' s v := by
  simp only [Model.greedyChoice, Model.actionValue, same]

theorem Model.policyValue_discount {p : Policy α} (stationary : p.isStationary = true) (i t s : Int) (v : Reader α) :
    m.policyValue goal i s p v = m.policyValue goal' t s p v := by
  have choices : p.distribution s i = p.distribution s t := by
    cases p with
    | markov stages => cases stationary
    | markovRandomized stages => cases stationary
    | _ => rfl
  simp only [Model.policyValue, Model.actionValue, choices, same]

end Discounts

theorem Model.policyValue_valid {m : Model α} (listed : m.Listed) {goal : Goal α} {discount : α}
    (known : goal.discount = .ok discount) {v : Array α} (room : m.stateCount ≤ v.size) {p : Policy α}
    (valid : p.validate m none = .ok ()) (stationary : p.isStationary = true) {t : Int} {s : Nat}
    (inside : s < m.stateCount) :
    (∃ value, m.policyValue goal t (s : Nat) p (Reader.ofArray v) = .ok value) ∨
      ¬p.Readable s ∧ m.policyValue goal t (s : Nat) p (Reader.ofArray v) = .error .invalidInput := by
  rw [m.policyValue_discount rfl stationary t 0]
  obtain ⟨k, count, _⟩ := listed s inside
  rcases p.chooses valid stationary inside count with ⟨_, choices, chooses⟩ | ⟨unreadable, unread⟩
  · refine Or.inl (m.policyValue_exists listed known room inside chooses.listed fun c member => ?_)
    obtain ⟨a, below, same⟩ := chooses.valid c member
    exact ⟨k, count, by omega, by omega⟩
  · exact Or.inr ⟨unreadable, by rw [policyValue, unread, Outcome.error_bind]⟩

section Passes

variable {m : Model α} (listed : m.Listed) {goal : Goal α} {discount : α} (known : goal.discount = .ok discount)
  {v : Array α} (size : v.size = m.stateCount)

include listed known size

theorem Model.bellman_exists (acts : ∀ s < m.stateCount, m.actionCount (s : Nat) ≠ .ok 0) (columnar : m.Columnar) :
    ∃ b, m.bellman goal v .serial = .ok b ∧ b.HasSize m.stateCount ∧
      ∀ s < m.stateCount, m.greedyChoice goal (s : Nat) (Reader.ofArray v)
        = .ok (b.values.getD s Scalar.zero, b.actions.getD s 0) := by
  have : Nonempty (Choice α) := ⟨Choice.none⟩
  choose! choice chosen using fun s (inside : s < m.stateCount) =>
    m.greedyChoice_exists listed known size.ge inside (acts s inside)
  have swept : m.bellman goal v .serial = .ok _ := Model.bellman_ok known rfl
    (Model.columns_choice listed acts columnar known (Reader.ofArray v)) (fun s => (choice s).1)
    (fun s => (choice s).2) chosen
  refine ⟨_, swept, ⟨Array.size_ofFn, Array.size_ofFn⟩, fun s inside => ?_⟩
  simp [chosen s inside, Array.getD, inside]

theorem Model.followed_exists {p : Policy α} {i : Int} (plays : p.Plays m i) :
    ∃ w, m.followed goal i v p .serial = .ok w ∧ w.size = m.stateCount ∧
      ∀ s < m.stateCount, m.policyValue goal i (s : Nat) p (Reader.ofArray v) = .ok (w.getD s Scalar.zero) := by
  have : Nonempty α := ⟨Scalar.zero⟩
  choose! value followed using fun s (inside : s < m.stateCount) =>
    plays.value_exists listed known size.ge inside
  have swept : m.followed goal i v p .serial = .ok _ := Model.followed_ok rfl value followed
  refine ⟨_, swept, Array.size_ofFn, fun s inside => ?_⟩
  simp [followed s inside, Array.getD, inside]

end Passes

theorem Policy.plays_of_readable {m : Model α} (listed : m.Listed) {p : Policy α} (valid : p.validate m none = .ok ())
    (stationary : p.isStationary = true) (readable : ∀ s < m.stateCount, p.Readable s) : p.Plays m 0 := by
  intro s inside
  obtain ⟨k, count, _⟩ := listed s inside
  rcases p.chooses valid stationary inside count with ⟨_, choices, chooses⟩ | ⟨unread, _⟩
  · refine ⟨choices, chooses.listed, fun c member => ?_⟩
    obtain ⟨a, below, same⟩ := chooses.valid c member
    exact ⟨k, count, by omega, by omega⟩
  · exact absurd (readable s inside) unread

theorem Policy.plays_of_followed {m : Model α} (listed : m.Listed) {p : Policy α} (valid : p.validate m none = .ok ())
    (stationary : p.isStationary = true) {goal : Goal α} {v w : Array α}
    (followed : m.followed goal 0 v p .serial = .ok w) : p.Plays m 0 := by
  refine p.plays_of_readable listed valid stationary fun s inside => ?_
  obtain ⟨k, count, _⟩ := listed s inside
  rcases p.chooses valid stationary inside count with ⟨readable, _⟩ | ⟨_, unread⟩
  · exact readable
  · obtain ⟨b, swept, _⟩ := Outcome.bind_ok.mp followed
    rcases ran : ((SweepBuffers.memory v).policySweep m goal 0 p .serial).runOn (.zeros m.stateCount) with ⟨_ | _, b'⟩
    · rw [InPlace.result, ran] at swept
      cases swept
    obtain ⟨parts, _, cut, ran⟩ := InPlace.runOn_bind_eq_ok ran
    have cut := (InPlace.lift_eq_ok cut).1
    have member : s ∈ parts.flatten := by
      rw [Schedule.chunks_flatten cut]
      exact List.mem_range.mpr inside
    obtain ⟨x, y, stepped⟩ := runChunks_each ran s member
    obtain ⟨_, _, _, stepped⟩ := InPlace.runOn_bind_eq_ok stepped
    obtain ⟨_, _, valued, _⟩ := InPlace.runOn_bind_eq_ok stepped
    have valued := (InPlace.lift_eq_ok valued).1
    rw [Model.policyValue, unread] at valued
    cases valued

namespace FixpointIteration

section Sweeps

def sweeps (m : Model α) (o : Objective α) (policy : Option (Policy α)) (first : Array α) : Nat → Outcome α (Array α)
  | 0 => .ok first
  | k + 1 => do step m o policy .serial (← sweeps m o policy first k)

variable {m : Model α} {o : Objective α} {policy : Option (Policy α)} {first : Array α} {settings : Settings α}

theorem sweeps_next {k : Nat} {v : Array α} (reached : sweeps m o policy first k = .ok v) :
    sweeps m o policy first (k + 1) = step m o policy .serial v := by
  rw [sweeps, reached, Outcome.ok_bind]

theorem sweeps_exists (steps : ∀ v : Array α, v.size = m.stateCount →
    ∃ w, step m o policy .serial v = .ok w ∧ w.size = m.stateCount) (size : first.size = m.stateCount) (k : Nat) :
    ∃ v, sweeps m o policy first k = .ok v ∧ v.size = m.stateCount := by
  induction k with
  | zero => exact ⟨first, rfl, size⟩
  | succ k ih =>
    obtain ⟨v, reached, size⟩ := ih
    rw [sweeps_next reached]
    exact steps v size

section Steps

variable {γ : α} (listed : m.Listed) (known : (Goal.objective o).discount = .ok γ) (size : first.size = m.stateCount)
  (k : Nat)

include listed known size

theorem sweeps_optimal (acts : ∀ s < m.stateCount, m.actionCount (s : Nat) ≠ .ok 0) (columnar : m.Columnar) :
    ∃ v, sweeps m o none first k = .ok v ∧ v.size = m.stateCount := by
  refine sweeps_exists (fun v size => ?_) size k
  obtain ⟨b, swept, sizes, _⟩ := Model.bellman_exists listed known size acts columnar
  exact ⟨b.values, by rw [step, swept]; rfl, sizes.1⟩

theorem sweeps_followed {p : Policy α} (plays : p.Plays m 0) :
    ∃ v, sweeps m o (some p) first k = .ok v ∧ v.size = m.stateCount := by
  refine sweeps_exists (fun v size => ?_) size k
  obtain ⟨w, swept, sizes, _⟩ := Model.followed_exists listed known size plays
  exact ⟨w, swept, sizes⟩

end Steps

theorem sweeps_first {k : Nat} {v : Array α} (reached : sweeps m o policy first k = .ok v) (positive : 1 ≤ k) :
    ∃ w, step m o policy .serial first = .ok w := by
  induction k generalizing v with
  | zero => cases positive
  | succ k ih =>
    obtain ⟨u, before, stepped⟩ := Outcome.bind_ok.mp reached
    rcases k with _ | k
    · cases before
      exact ⟨v, stepped⟩
    · exact ih before (Nat.succ_pos k)

theorem step_serial {v w : Array α} (swept : step m o policy (schedule m policy settings) v = .ok w) :
    step m o policy .serial v = .ok w := by
  cases policy with
  | none =>
    obtain ⟨b, swept, same⟩ := Outcome.bind_ok.mp swept
    obtain ⟨parts, cut⟩ := cut_of_bellman swept
    rw [Model.bellman_schedule cut] at swept
    exact Outcome.bind_ok.mpr ⟨b, swept, same⟩
  | some p =>
    obtain ⟨parts, cut⟩ := cut_of_followed swept
    exact (Model.followed_schedule cut).symm.trans swept

theorem iterate_sweeps {change : List α → α} {threshold : α} {fuel : Nat} : ∀ (done : Nat) {p q : Progress α}
    {j j' : Journal α}, sweeps m o policy first done = .ok p.value → p.iterations = done →
    (iterate (step m o policy (schedule m policy settings)) change threshold fuel done p).runOn j = (.ok q, j') →
    sweeps m o policy first q.iterations = .ok q.value := by
  induction fuel with
  | zero =>
    intro done p q j j' reached counted ran
    cases ran
    rw [counted]
    exact reached
  | succ fuel ih =>
    intro done p q j j' reached _ ran
    obtain ⟨v, _, lifted, ran⟩ := InPlace.runOn_bind_eq_ok ran
    have next : sweeps m o policy first (done + 1) = .ok v :=
      (sweeps_next reached).trans (step_serial (InPlace.lift_eq_ok lifted).1)
    obtain ⟨_, _, _, ran⟩ := InPlace.runOn_bind_eq_ok ran
    dsimp only at ran
    split at ran
    · cases ran
      exact next
    · exact ih (done + 1) next rfl ran

theorem run_sweeps {discount : α} {result : ValueIterationResult α} {j j' : Journal α}
    (ran : (run m o discount policy settings).runOn j = (.ok result, j')) :
    ∃ v, sweeps m o policy (Array.replicate m.stateCount Scalar.zero) result.iterations = .ok v ∧
      result.value = .stationary v ∧
      (policy = none → ∃ b, m.bellman (.objective o) v .serial = .ok b ∧
        result.policy = some (.stationary b.actions)) := by
  obtain ⟨limit, p, k, k', greedy, _, _, looped, chosen, rfl⟩ := run_result ran
  refine ⟨p.value, iterate_sweeps 0 rfl rfl looped, rfl, fun none => ?_⟩
  subst none
  obtain ⟨b, swept, same⟩ := Outcome.bind_ok.mp chosen
  cases same
  obtain ⟨parts, cut⟩ := cut_of_bellman swept
  exact ⟨b, (Model.bellman_schedule cut).symm.trans swept, rfl⟩

end Sweeps

end FixpointIteration

theorem Policy.validate_horizon {m : Model α} {p : Policy α} (valid : p.validate m none = .ok ())
    (stationary : p.isStationary = true) (horizon : Nat) : p.validate m (some (.int horizon)) = .ok () := by
  refine Policy.validate_iff.mpr ⟨fun staged => absurd (stationary.symm.trans staged) (by decide), ?_⟩
  have only : p.stages.forM (Policy.checkStage m) = .ok () := by
    unfold Policy.validate at valid
    rw [stationary] at valid
    exact valid
  exact Outcome.forM_ok.mp only

section Horizons

open BackwardInduction FixpointIteration

variable {m : Model α} (listed : m.Listed) {γ : α} {horizon : Nat} {settings : Settings α}
  (room : Tensor.fits settings.capacity [horizon + 1, m.stateCount] = true) {terminal : Option (TerminalValue α)}
  {first : Array α} (ended : (terminal.getD .zero).vector m.stateCount = .ok first) (whole : first.size = m.stateCount)
  (printable : (settings.verbose && settings.lineLength.isNone) = false)

include listed room ended whole printable

theorem finiteHorizon_sweeps (acts : ∀ s < m.stateCount, m.actionCount (s : Nat) ≠ .ok 0) (columnar : m.Columnar)
    (j : Journal α) : ∃ result j', ∃ values : Nat → Array α, ∃ passes : Nat → SweepBuffers α,
      (valueIteration m (.finite γ horizon) none terminal settings).runOn j = (.ok result, j') ∧
      result.value = .staged (Array.ofFn fun t : Fin (horizon + 1) => values (horizon - t)) ∧
      result.policy = some (.markov (Array.ofFn fun t : Fin horizon => (passes (horizon - (t + 1))).actions)) ∧
      ∀ k, sweeps m (.infinite γ) none first k = .ok (values k) ∧ (values k).size = m.stateCount ∧
        m.bellman (.objective (.infinite γ)) (values k) .serial = .ok (passes k) := by
  have known : (Goal.objective (.infinite γ)).discount = .ok γ := rfl
  choose values reached size using fun k => sweeps_optimal listed known whole k acts columnar
  choose passes swept sizes chosen using fun k => Model.bellman_exists listed known (size k) acts columnar
  have next (k : Nat) : values (k + 1) = (passes k).values := by
    have stepped := (reached (k + 1)).symm.trans (sweeps_next (reached k))
    rw [step, swept] at stepped
    exact Except.ok.inj stepped
  have read : (none : Option (PolicyData α)).mapM (fun data => data.validate m (some (.int horizon))) = .ok none := rfl
  have last : (terminal.getD .zero).vector m.stateCount = .ok (values (horizon - horizon)) := by
    rw [Nat.sub_self, ended]
    exact reached 0
  have same : (Goal.objective (.finite γ horizon)).discount = (Goal.objective (.infinite γ)).discount := rfl
  have stages : ∀ t < horizon, (sweep Stages.memory m (.finite γ horizon) none t).runOn
      (.filled horizon m.stateCount (fun t => values (horizon - t))
        (fun t => (passes (horizon - (t + 1))).actions) (t + 1))
      = (.ok (), .filled horizon m.stateCount (fun t => values (horizon - t))
        (fun t => (passes (horizon - (t + 1))).actions) t) := by
    intro t below
    have row : values (horizon - t) = (passes (horizon - (t + 1))).values := by
      rw [← next, show horizon - (t + 1) + 1 = horizon - t by omega]
    have choices : ∀ s < m.stateCount, m.greedyChoice (.objective (.finite γ horizon)) (s : Nat)
        (Reader.ofArray (values (horizon - (t + 1)))) = .ok ((values (horizon - t)).getD s Scalar.zero,
          (passes (horizon - (t + 1))).actions.getD s 0) := by
      intro s inside
      rw [row, Model.greedyChoice_discount same]
      exact chosen _ s inside
    exact Stages.filled_bellmanSweep (fun t => values (horizon - t))
      (fun t => (passes (horizon - (t + 1))).actions) rfl (Model.columns_choice listed acts columnar rfl _) below
      (size _) (sizes _).2 choices
  obtain ⟨result, j', ran, value, policy⟩ := finiteValueIteration_returns room printable read last stages j
  exact ⟨result, j', values, passes, ran, value, policy, fun k => ⟨reached k, size k, swept k⟩⟩

theorem finiteHorizon_followed {given : PolicyData α} {p : Policy α} (resolved : given.resolve = .ok p)
    (valid : p.validate m none = .ok ()) (stationary : p.isStationary = true) (plays : p.Plays m 0) (j : Journal α) :
    ∃ result j', ∃ values : Nat → Array α,
      (valueIteration m (.finite γ horizon) (some given) terminal settings).runOn j = (.ok result, j') ∧
      result.value = .staged (Array.ofFn fun t : Fin (horizon + 1) => values (horizon - t)) ∧
      ∀ k, sweeps m (.infinite γ) (some p) first k = .ok (values k) := by
  have known : (Goal.objective (.infinite γ)).discount = .ok γ := rfl
  choose values reached size using fun k => sweeps_followed listed known whole k plays
  have next (k : Nat) : ∀ s < m.stateCount, m.policyValue (.objective (.infinite γ)) 0 (s : Nat) p
      (Reader.ofArray (values k)) = .ok ((values (k + 1)).getD s Scalar.zero) := by
    obtain ⟨w, swept, _, followed⟩ := Model.followed_exists listed known (size k) plays
    obtain rfl : values (k + 1) = w :=
      Except.ok.inj ((reached (k + 1)).symm.trans ((sweeps_next (reached k)).trans swept))
    exact followed
  have read : (some given).mapM (fun data => data.validate m (some (.int horizon))) = .ok (some p) := by
    rw [Option.mapM_some, PolicyData.validate_ok.mpr ⟨resolved, Policy.validate_horizon valid stationary horizon⟩]
    rfl
  have last : (terminal.getD .zero).vector m.stateCount = .ok (values (horizon - horizon)) := by
    rw [Nat.sub_self, ended]
    exact reached 0
  have same : (Goal.objective (.finite γ horizon)).discount = (Goal.objective (.infinite γ)).discount := rfl
  have stages : ∀ t < horizon, (sweep Stages.memory m (.finite γ horizon) (some p) t).runOn
      (.filled horizon m.stateCount (fun t => values (horizon - t)) (fun _ => Array.replicate m.stateCount 0) (t + 1))
      = (.ok (), .filled horizon m.stateCount (fun t => values (horizon - t))
        (fun _ => Array.replicate m.stateCount 0) t) := by
    intro t below
    have rule : (if p.isStationary then .ok p else p.stage t : Outcome α (Policy α)) = .ok p := if_pos stationary
    have followed : ∀ s < m.stateCount, m.policyValue (.objective (.finite γ horizon)) t (s : Nat) p
        (Reader.ofArray (values (horizon - (t + 1)))) = .ok ((values (horizon - t)).getD s Scalar.zero) := by
      intro s inside
      rw [Model.policyValue_discount same m stationary t 0, next _ s inside,
        show horizon - (t + 1) + 1 = horizon - t by omega]
    refine (InPlace.runOn_bind_ok (by rw [InPlace.runOn_lift, rule])).trans ?_
    exact Stages.filled_policySweep (fun t => values (horizon - t)) (fun _ => Array.replicate m.stateCount 0)
      below (size _) rfl followed
  obtain ⟨result, j', ran, value, _⟩ := finiteValueIteration_returns room printable read last stages j
  exact ⟨result, j', values, ran, value, reached⟩

end Horizons

section Modes

open FixpointIteration

-- The row k stages before the end is what any run with k iterations returns, in either mode; and what is decided one
-- stage earlier is the policy it returns.
theorem stages_are_sweeps {m : Model α} (listed : m.Listed) {γ : α} {horizon : Nat} {settings : Settings α}
    (room : Tensor.fits settings.capacity [horizon + 1, m.stateCount] = true) {terminal : Option (TerminalValue α)}
    (nothing : (terminal.getD .zero).vector m.stateCount = .ok (Array.replicate m.stateCount Scalar.zero))
    (printable : (settings.verbose && settings.lineLength.isNone) = false)
    (acts : ∀ s < m.stateCount, m.actionCount (s : Nat) ≠ .ok 0) (columnar : m.Columnar)
    (j : Journal α) :
    (∃ result j' rows decisions,
      (valueIteration m (.finite γ horizon) none terminal settings).runOn j = (.ok result, j') ∧
      result.value = .staged rows ∧ result.policy = some (.markov decisions) ∧
      ∀ {other : Settings α} {found : ValueIterationResult α} {i i' : Journal α},
        (valueIteration m (.infinite γ) none none other).runOn i = (.ok found, i') → found.iterations ≤ horizon →
        ∃ v actions, found.value = .stationary v ∧ found.policy = some (.stationary actions) ∧
          rows[horizon - found.iterations]? = some v ∧
          (found.iterations < horizon → decisions[horizon - found.iterations - 1]? = some actions)) ∧
    ∀ {given : PolicyData α} {other : Settings α} {found : ValueIterationResult α} {i i' : Journal α},
      (valueIteration m (.infinite γ) (some given) none other).runOn i = (.ok found, i') → 1 ≤ found.iterations →
      found.iterations ≤ horizon → ∃ result j' rows v,
        (valueIteration m (.finite γ horizon) (some given) terminal settings).runOn j = (.ok result, j') ∧
        result.value = .staged rows ∧ found.value = .stationary v ∧ rows[horizon - found.iterations]? = some v := by
  have row {values : Nat → Array α} {k : Nat} (below : k ≤ horizon) :
      (Array.ofFn fun t : Fin (horizon + 1) => values (horizon - t))[horizon - k]? = some (values k) := by
    rw [ofFn_getElem? (fun t => values (horizon - t)) (by omega), show horizon - (horizon - k) = k by omega]
  refine ⟨?_, ?_⟩
  · obtain ⟨result, j', values, passes, ran, value, policy, each⟩ :=
      finiteHorizon_sweeps listed room nothing Array.size_replicate printable acts columnar j
    refine ⟨result, j', _, _, ran, value, policy, fun found_ran within => ?_⟩
    obtain ⟨_, _, read, _, found_ran⟩ := valueIteration_parts found_ran
    cases read
    obtain ⟨v, reached, found_value, greedy⟩ := run_sweeps found_ran
    obtain ⟨b, swept, found_policy⟩ := greedy rfl
    obtain rfl := Except.ok.inj (reached.symm.trans (each _).1)
    obtain rfl := Except.ok.inj (swept.symm.trans (each _).2.2)
    refine ⟨_, _, found_value, found_policy, row within, fun earlier => ?_⟩
    rw [ofFn_getElem? (fun t => (passes (horizon - (t + 1))).actions) (by omega), Nat.sub_add_cancel (by omega),
      Nat.sub_sub_self within]
  · intro given other found i i' found_ran swept_once within
    obtain ⟨policy, _, read, checked, found_ran⟩ := valueIteration_parts found_ran
    obtain ⟨v, reached, found_value, _⟩ := run_sweeps found_ran
    change (given.resolve >>= fun p => pure (some p)) = .ok policy at read
    obtain ⟨p, resolved, same⟩ := Outcome.bind_ok.mp read
    cases same
    obtain ⟨valid, stationary⟩ := checked p rfl
    obtain ⟨w, followed⟩ := sweeps_first reached swept_once
    obtain ⟨result, j', values, ran, value, each⟩ := finiteHorizon_followed listed room nothing
      Array.size_replicate printable resolved valid stationary
      (Policy.plays_of_followed listed valid stationary followed) j
    obtain rfl := Except.ok.inj (reached.symm.trans (each _))
    exact ⟨result, j', _, _, ran, value, found_value, row within⟩

end Modes

theorem stages_are_sweeps_leaving : ∃ result j rows decisions found i v actions,
    (valueIteration (.table Process.leaving.table) (.finite (.finite (1 / 2)) 3) none none
      (.quiet 10 1 (1 / 4))).runOn Journal.empty = (.ok result, j) ∧
    result.value = .staged rows ∧ result.policy = some (.markov decisions) ∧
    (valueIteration (.table Process.leaving.table) (.infinite (.finite (1 / 2))) none none
      (.quiet 2 (1 / 1000) 0)).runOn Journal.empty = (.ok found, i) ∧
    found.iterations = 2 ∧ found.value = .stationary v ∧ found.policy = some (.stationary actions) ∧
    rows[1]? = some v ∧ decisions[0]? = some actions ∧ ∃ result j rows found i v,
      (valueIteration (.table Process.leaving.table) (.finite (.finite (1 / 2)) 3) (some (.policy (.stationary #[0, 0])))
        none (.quiet 10 1 (1 / 4))).runOn Journal.empty = (.ok result, j) ∧
      result.value = .staged rows ∧
      (valueIteration (.table Process.leaving.table) (.infinite (.finite (1 / 2)))
        (some (.policy (.stationary #[0, 0]))) none (.quiet 2 (1 / 1000) 0)).runOn Journal.empty = (.ok found, i) ∧
      found.iterations = 2 ∧ found.value = .stationary v ∧ rows[1]? = some v := by
  have described := table_describes Process.leaving
  have room : Tensor.fits (Settings.quiet 10 1 (1 / 4) : Settings (Extended ℚ)).capacity [3 + 1, 2] = true := by decide
  have nothing : ((none : Option (TerminalValue (Extended ℚ))).getD .zero).vector 2
      = .ok (Array.replicate 2 Scalar.zero) := rfl
  have printable : ((Settings.quiet 10 1 (1 / 4) : Settings (Extended ℚ)).verbose &&
    (Settings.quiet 10 1 (1 / 4) : Settings (Extended ℚ)).lineLength.isNone) = false := rfl
  have found_run (given : Option (PolicyData (Extended ℚ)))
      (twice : (valueIteration (.table Process.leaving.table) (.infinite (.finite (1 / 2))) given none
        (.quiet 2 (1 / 1000) 0)).returns Journal.empty (fun found => found.iterations == 2) = true) :
      ∃ found i, (valueIteration (.table Process.leaving.table) (.infinite (.finite (1 / 2))) given none
        (.quiet 2 (1 / 1000) 0)).runOn Journal.empty = (.ok found, i) ∧ found.iterations = 2 := by
    obtain ⟨found, i, ran, twice⟩ := InPlace.runOn_of_returns twice
    exact ⟨found, i, ran, by simpa using twice⟩
  obtain ⟨⟨result, j, rows, decisions, ran, value, policy, optimal⟩, followed⟩ :=
    stages_are_sweeps described.listed (γ := .finite (1 / 2)) room nothing printable described.acts
      described.columnar Journal.empty
  obtain ⟨found, i, found_ran, twice⟩ := found_run none (by decide +kernel)
  obtain ⟨v, actions, found_value, found_policy, row, decision⟩ := optimal found_ran (by omega)
  rw [twice] at row decision
  refine ⟨result, j, rows, decisions, found, i, v, actions, ran, value, policy, found_ran, twice, found_value,
    found_policy, row, decision (by omega), ?_⟩
  obtain ⟨found, i, found_ran, twice⟩ := found_run (some (.policy (.stationary #[0, 0]))) (by decide +kernel)
  obtain ⟨result, j, rows, v, ran, value, found_value, row⟩ := followed found_ran (by omega) (by omega)
  rw [twice] at row
  exact ⟨result, j, rows, found, i, v, ran, value, found_ran, twice, found_value, row⟩

end MarkovDecision
