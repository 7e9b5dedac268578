import MarkovDecision.Proofs.StageSweeps

namespace MarkovDecision

variable {α : Type} [Scalar α]

structure Stops (passes : Nat → Bool) (done fuel n : Nat) : Prop where
  after : done < n
  within : n ≤ done + fuel
  refused : ∀ k, done < k → k < n → passes k = false
  ended : passes n = true ∨ n = done + fuel

theorem Stops.later {passes : Nat → Bool} {done fuel n : Nat} (refused : passes (done + 1) = false)
    (stops : Stops passes (done + 1) fuel n) : Stops passes done (fuel + 1) n where
  after := by
    have after := stops.after
    omega
  within := by
    have within := stops.within
    omega
  refused := by
    intro k after before
    rcases Nat.eq_or_lt_of_le (Nat.succ_le_of_lt after) with first | later
    · rw [← first]
      exact refused
    · exact stops.refused k later before
  ended := stops.ended.imp_right fun last => by omega

namespace FixpointIteration

def limit (ε γ : α) : α :=
  if Scalar.lt Scalar.zero γ then ε * (Scalar.one - γ) / γ else Scalar.infinity

theorem threshold_limit {settings : Settings α} {ε : α} (tolerance : settings.epsilon.value? = some ε) (γ : α) :
    threshold settings γ = .ok (limit ε γ) := by
  unfold threshold limit
  split
  · rw [tolerance]
    rfl
  · rfl

def residual (rule : StopRule) (values : Nat → Array α) (k : Nat) : α :=
  changeOf rule (List.zipWith (· - ·) (values k).toList (values (k - 1)).toList)

def residualRows (rule : StopRule) (values : Nat → Array α) (done n : Nat) : List (Nat × Quantity α) :=
  (List.range' (done + 1) (n - done)).map fun k => (k, .real (residual rule values k))

theorem residualRows_next {done n : Nat} (after : done < n) (rule : StopRule) (values : Nat → Array α) :
    residualRows rule values done n
      = (done + 1, .real (residual rule values (done + 1))) :: residualRows rule values (done + 1) n := by
  rw [residualRows, show n - done = n - (done + 1) + 1 by omega, List.range'_succ, List.map_cons]
  rfl

section Loop

variable {next : Array α → Outcome α (Array α)} (rule : StopRule) (bound : α) {values : Nat → Array α}

variable (swept : ∀ k, next (values k) = .ok (values (k + 1)))

include swept

theorem iterate_next {done : Nat} {p : Progress α} (reached : p.value = values done) (fuel : Nat) (j : Journal α) :
    (iterate next (changeOf rule) bound (fuel + 1) done p).runOn j =
      if Scalar.le (residual rule values (done + 1)) bound then
        (.ok ⟨values (done + 1), done + 1, residual rule values (done + 1), true⟩,
          j.push (.row (done + 1) (.real (residual rule values (done + 1)))))
      else (iterate next (changeOf rule) bound fuel (done + 1)
        ⟨values (done + 1), done + 1, residual rule values (done + 1), false⟩).runOn
          (j.push (.row (done + 1) (.real (residual rule values (done + 1))))) := by
  refine iterate_swept ?_ ?_ fuel done j
  · rw [reached, swept]
  · rw [reached]
    rfl

-- By induction over the sweeps that are left: the loop is a search along the changes.
theorem iterate_stops (fuel : Nat) : ∀ (done : Nat) (p : Progress α) (j : Journal α), p.value = values done →
    ∃ n j', Stops (fun k => Scalar.le (residual rule values k) bound) done (fuel + 1) n ∧
      (iterate next (changeOf rule) bound (fuel + 1) done p).runOn j
        = (.ok ⟨values n, n, residual rule values n, Scalar.le (residual rule values n) bound⟩, j') ∧
      j'.rows = j.rows ++ residualRows rule values done n ∧ j'.warnings = j.warnings := by
  induction fuel with
  | zero =>
    intro done p j reached
    have ran := iterate_next rule bound swept reached 0 j
    refine ⟨done + 1, j.push (.row (done + 1) (.real (residual rule values (done + 1)))),
      ⟨Nat.lt_succ_self done, le_refl _, fun k after before => by omega, Or.inr rfl⟩, ?_, ?_,
      Journaled.warnings_push j (by simp)⟩
    · rw [ran]
      cases Scalar.le (residual rule values (done + 1)) bound with
      | true => rfl
      | false => rfl
    · rw [Journaled.rows_push_row, residualRows_next (Nat.lt_succ_self done), residualRows, Nat.sub_self]
      rfl
  | succ fuel ih =>
    intro done p j reached
    have ran := iterate_next rule bound swept reached (fuel + 1) j
    cases passed : Scalar.le (residual rule values (done + 1)) bound with
    | true =>
      rw [passed, if_pos rfl] at ran
      refine ⟨done + 1, _, ⟨Nat.lt_succ_self done, by omega, fun k after before => by omega, Or.inl passed⟩,
        by rw [passed]; exact ran, ?_, Journaled.warnings_push j (by simp)⟩
      rw [Journaled.rows_push_row, residualRows_next (Nat.lt_succ_self done), residualRows, Nat.sub_self]
      rfl
    | false =>
      rw [passed, if_neg (by simp)] at ran
      obtain ⟨n, j', stops, looped, rows, warnings⟩ := ih (done + 1)
        ⟨values (done + 1), done + 1, residual rule values (done + 1), false⟩
        (j.push (.row (done + 1) (.real (residual rule values (done + 1))))) rfl
      refine ⟨n, j', stops.later passed, ran.trans looped, ?_, ?_⟩
      · rw [rows, Journaled.rows_push_row, List.append_assoc,
          residualRows_next (Nat.lt_of_succ_lt stops.after)]
        rfl
      · rw [warnings, Journaled.warnings_push j (by simp)]

end Loop

def decided (m : Model α) (o : Objective α) (policy : Option (Policy α)) (schedule : Schedule) (v : Array α) :
    Outcome α (Option (Policy α)) :=
  match policy with
  | none => do
    return some (Policy.stationary (← m.bellman (.objective o) v schedule).actions)
  | some _ => .ok none

section Runs

variable {m : Model α} {γ bound : α} {policy : Option (Policy α)} {settings : Settings α} {values : Nat → Array α}

theorem run_stops (made : threshold settings γ = .ok bound)
    (printable : (settings.verbose && settings.lineLength.isNone) = false) (capped : 0 < settings.iterations)
    (first : values 0 = Array.replicate m.stateCount Scalar.zero)
    (swept : ∀ k, step m (.infinite γ) policy (schedule m policy settings) (values k) = .ok (values (k + 1)))
    {greedy : Nat → Option (Policy α)}
    (chosen : ∀ k, decided m (.infinite γ) policy (schedule m policy settings) (values k) = .ok (greedy k)) :
    ∃ n j, Stops (fun k => Scalar.le (residual settings.stopRule values k) bound) 0 settings.iterations n ∧
      (run m (.infinite γ) γ policy settings).runOn Journal.empty = (.ok {
        value := .stationary (values n)
        policy := greedy n
        iterations := n
        residual := some (residual settings.stopRule values n)
        converged := Scalar.le (residual settings.stopRule values n) bound
        trace := ⟨stepName, valueName, residualRows settings.stopRule values 0 n⟩ }, j) ∧
      j.warnings = if Scalar.le (residual settings.stopRule values n) bound then []
        else [.residualAbove n (residual settings.stopRule values n) bound] := by
  obtain ⟨opening, opened⟩ := Journaled.begin_yields printable algorithm valueName (.infinite γ) m.stateCount Journal.empty
  obtain ⟨-, same⟩ := Journaled.begin_ok opened
  have quiet : opening.rows = [] ∧ opening.warnings = [] := by
    rw [same]
    exact ⟨rfl, rfl⟩
  obtain ⟨fuel, cap⟩ := Nat.exists_eq_succ_of_ne_zero capped.ne'
  obtain ⟨n, closing, stops, looped, rows, warnings⟩ :=
    iterate_stops settings.stopRule bound swept fuel 0 (start m) opening first.symm
  rw [← Nat.succ_eq_add_one, ← cap] at stops looped
  rw [quiet.1, List.nil_append] at rows
  rw [quiet.2] at warnings
  have limited : (InPlace.lift (threshold settings γ) : Journaled α α).runOn Journal.empty = (.ok bound, Journal.empty) := by
    rw [InPlace.runOn_lift, made]
  have lifted : (InPlace.lift (decided m (.infinite γ) policy (schedule m policy settings) (values n))
      : Journaled α _).runOn closing = (.ok (greedy n), closing) := by
    rw [InPlace.runOn_lift, chosen]
  have ran : (run m (.infinite γ) γ policy settings).runOn Journal.empty = _ :=
    (InPlace.runOn_bind_ok limited).trans <| (InPlace.runOn_bind_ok opened).trans <|
      (InPlace.runOn_bind_ok looped).trans <| (InPlace.runOn_bind_ok lifted).trans <|
        InPlace.runOn_bind_ok (Journaled.note_runOn (.closing (Scalar.le (residual settings.stopRule values n) bound)) _)
  -- the closing leaves rows and warnings alone, the warning leaves the rows alone
  have ended := Journaled.rows_push closing
    (e := .closing (Scalar.le (residual settings.stopRule values n) bound)) (by simp)
  have silent := Journaled.warnings_push closing
    (e := .closing (Scalar.le (residual settings.stopRule values n) bound)) (by simp)
  rw [rows] at ended
  rw [warnings] at silent
  cases passed : Scalar.le (residual settings.stopRule values n) bound with
  | true =>
    rw [passed] at ran ended silent
    refine ⟨n, closing.push (.closing true), stops, ?_, ?_⟩
    · rw [passed, ran, ← ended]
      rfl
    · rw [passed, if_pos rfl]
      exact silent
  | false =>
    rw [passed] at ran ended silent
    have warned := Journaled.rows_push (closing.push (.closing false))
      (e := .warning (.residualAbove n (residual settings.stopRule values n) bound)) (by simp)
    refine ⟨n, (closing.push (.closing false)).push (.warning (.residualAbove n (residual settings.stopRule values n)
      bound)), stops, ?_, ?_⟩
    · rw [passed, ran, ← ended, ← warned]
      rfl
    · rw [passed, if_neg (by simp), Journaled.warnings_push_warning, silent]
      rfl

theorem valueIteration_run {given : Option (PolicyData α)}
    (resolved : (given.mapM PolicyData.resolve : Outcome α _) = .ok policy)
    (accepted : ∀ p ∈ policy, p.validate m none = .ok () ∧ p.isStationary = true) (j : Journal α) :
    (valueIteration m (.infinite γ) given none settings).runOn j = (run m (.infinite γ) γ policy settings).runOn j := by
  cases given with
  | none =>
    cases resolved
    rfl
  | some g =>
    obtain ⟨p, read, same⟩ := Outcome.bind_ok.mp resolved
    cases same
    obtain ⟨valid, stationary⟩ := accepted p rfl
    have checked : (InPlace.lift ((some g).mapM fun given => do
        let p ← given.validate m none
        if !p.isStationary then throw .stationaryOnly
        return p) : Journaled α _).runOn j = (.ok (some p), j) := by
      rw [InPlace.runOn_lift, Option.mapM_some, PolicyData.validate_ok.mpr ⟨read, valid⟩, Outcome.ok_bind, stationary]
      rfl
    exact InPlace.runOn_bind_ok checked

end Runs

end FixpointIteration

section Greedy

variable {m : Model α} {goal : Goal α} {v : Array α}

def Model.Greediest (m : Model α) (goal : Goal α) (v : Array α) (s a : Nat) : Prop :=
  ∃ (k : Nat) (q : Nat → α), m.actionCount (s : Nat) = .ok (k : Int) ∧ a < k ∧
    (∀ b < k, m.actionValue goal (s : Nat) (b : Nat) (Reader.ofArray v) = .ok (q b)) ∧
    (∀ b < k, Scalar.lt (q a) (q b) = false) ∧ ∀ b < a, Scalar.lt (q b) (q a) = true

def Model.Worth (m : Model α) (good : α → Prop) (goal : Goal α) (v : Array α) (s : Nat) : Prop :=
  ∀ (k a : Nat) x, m.actionCount (s : Nat) = .ok (k : Int) → a < k →
    m.actionValue goal (s : Nat) (a : Nat) (Reader.ofArray v) = .ok x → good x

theorem Model.bellman_greediest (listed : m.Listed) (acts : ∀ s < m.stateCount, m.actionCount (s : Nat) ≠ .ok 0)
    (columnar : m.Columnar) {γ : α} (known : goal.discount = .ok γ) (size : v.size = m.stateCount)
    {good : α → Prop} (comparable : Comparable good) {b : SweepBuffers α} (swept : m.bellman goal v .serial = .ok b)
    {s : Nat} (inside : s < m.stateCount)
    (numbers : m.Worth good goal v s) :
    ∃ a : Nat, b.actions[s]? = some (a : Int) ∧ m.Greediest goal v s a := by
  obtain ⟨b', swept', sizes, chosen⟩ := Model.bellman_exists listed known size acts columnar
  obtain rfl := Except.ok.inj (swept.symm.trans swept')
  obtain ⟨k, count, _⟩ := listed s inside
  have positive : 0 < k := Nat.pos_of_ne_zero fun none => acts s inside (by rw [count, none]; rfl)
  have : Nonempty α := ⟨Scalar.zero⟩
  choose! q value using fun a (within : a < k) => m.actionValue_of_greedyChoice positive count (chosen s inside) within
  have found := chosen s inside
  rw [greedyChoice_ok (positiveCount_ok positive count) value] at found
  obtain ⟨last, rfl⟩ := Nat.exists_eq_succ_of_ne_zero positive.ne'
  obtain ⟨a, within, best, greatest, first⟩ :=
    search_lowest comparable q last fun a within =>
      numbers _ a _ count (Nat.lt_succ_of_le within) (value a (Nat.lt_succ_of_le within))
  have action : (a : Int) = b.actions.getD s 0 := congrArg Prod.snd (best.symm.trans (Except.ok.inj found))
  refine ⟨a, ?_, last + 1, q, count, Nat.lt_succ_of_le within, value,
    fun a' below => greatest a' (Nat.le_of_lt_succ below), first⟩
  rw [action, Array.getD_eq_getD_getElem?, Array.getElem?_eq_getElem (by rw [sizes.2]; exact inside), Option.getD_some]

theorem Model.worth_exact {n : Nat} {K : Type} [Field K] [LinearOrder K] [FloorRing K] {m : Model (Extended K)}
    {P : Process n K} (described : m.Describes P) {goal : Goal (Extended K)} {γ : K}
    (known : goal.discount = .ok (.finite γ)) (u : Fin n → K) (s : Fin n) :
    m.Worth (fun x => ∃ y, x = .finite y) goal (exactVector u) s := by
  intro k a x count below value
  obtain rfl : P.actionCount s = k := Int.ofNat.inj (Except.ok.inj ((described.actions s).symm.trans count))
  exact ⟨_, Except.ok.inj (value.symm.trans (actionValue_exact described known u s ⟨a, below⟩))⟩

end Greedy

namespace FixpointIteration

theorem step_schedule {m : Model α} {o : Objective α} {policy : Option (Policy α)} {settings : Settings α}
    (cut : Scheduled m policy settings) (v : Array α) :
    step m o policy (schedule m policy settings) v = step m o policy .serial v := by
  obtain ⟨parts, cut⟩ := cut
  cases policy with
  | none => rw [step, step, Model.bellman_schedule cut]
  | some p => exact Model.followed_schedule cut

theorem values_exist {m : Model α} (listed : m.Listed) (acts : ∀ s < m.stateCount, m.actionCount (s : Nat) ≠ .ok 0)
    (columnar : m.Columnar) (γ : α) {policy : Option (Policy α)} (plays : ∀ p ∈ policy, p.Plays m 0) :
    ∃ values : Nat → Array α, values 0 = Array.replicate m.stateCount Scalar.zero ∧
      (∀ k, (values k).size = m.stateCount) ∧
      ∀ k, step m (.infinite γ) policy .serial (values k) = .ok (values (k + 1)) := by
  have known : (Goal.objective (.infinite γ)).discount = .ok γ := rfl
  have each (k : Nat) : ∃ v, sweeps m (.infinite γ) policy (Array.replicate m.stateCount Scalar.zero) k = .ok v ∧
      v.size = m.stateCount := by
    cases policy with
    | none => exact sweeps_optimal listed known Array.size_replicate k acts columnar
    | some p => exact sweeps_followed listed known Array.size_replicate k (plays p rfl)
  choose values reached size using each
  exact ⟨values, (Except.ok.inj (reached 0)).symm, size, fun k => (sweeps_next (reached k)).symm.trans (reached (k + 1))⟩

end FixpointIteration

section Answers

open FixpointIteration

-- Value iteration makes sweeps from zero until one changes the values by no more than the limit, or until the cap. What
-- it returns belongs to the last values: their change, whether it was within the limit, a row for every sweep, and in
-- every state the lowest of the best actions. There is one warning, if the cap was reached before the limit.
theorem valueIteration_counts {m : Model α} (listed : m.Listed)
    (acts : ∀ s < m.stateCount, m.actionCount (s : Nat) ≠ .ok 0) (columnar : m.Columnar) (γ : α) {ε : α}
    {settings : Settings α} (tolerance : settings.epsilon.value? = some ε) (capped : 0 < settings.iterations)
    (printable : (settings.verbose && settings.lineLength.isNone) = false) {given : Option (PolicyData α)}
    {policy : Option (Policy α)} (resolved : (given.mapM PolicyData.resolve : Outcome α _) = .ok policy)
    (accepted : ∀ p ∈ policy, p.validate m none = .ok () ∧ p.isStationary = true)
    (readable : ∀ p ∈ policy, ∀ s < m.stateCount, p.Readable s) (cut : Scheduled m policy settings)
    {good : α → Prop} (comparable : Comparable good) :
    ∃ (values : Nat → Array α) (result : ValueIterationResult α) (j : Journal α),
      values 0 = Array.replicate m.stateCount Scalar.zero ∧
      (∀ k, step m (.infinite γ) policy .serial (values k) = .ok (values (k + 1))) ∧
      (valueIteration m (.infinite γ) given none settings).runOn Journal.empty = (.ok result, j) ∧
      Stops (fun k => Scalar.le (residual settings.stopRule values k) (limit ε γ)) 0 settings.iterations
        result.iterations ∧
      result.value = .stationary (values result.iterations) ∧
      result.residual = some (residual settings.stopRule values result.iterations) ∧
      result.converged = Scalar.le (residual settings.stopRule values result.iterations) (limit ε γ) ∧
      result.trace.rows = residualRows settings.stopRule values 0 result.iterations ∧
      j.warnings = (if result.converged then []
        else [.residualAbove result.iterations (residual settings.stopRule values result.iterations) (limit ε γ)]) ∧
      (policy = none → ∃ actions, result.policy = some (.stationary actions) ∧ actions.size = m.stateCount ∧
        ∀ s < m.stateCount, m.Worth good (.objective (.infinite γ)) (values result.iterations) s →
          ∃ a : Nat, actions[s]? = some (a : Int) ∧
            m.Greediest (.objective (.infinite γ)) (values result.iterations) s a) ∧
      (policy ≠ none → result.policy = none) := by
  have known : (Goal.objective (.infinite γ)).discount = .ok γ := rfl
  obtain ⟨values, first, size, swept⟩ := values_exist listed acts columnar γ fun p member =>
    p.plays_of_readable listed (accepted p member).1 (accepted p member).2 (readable p member)
  have stepped (k : Nat) : step m (.infinite γ) policy (schedule m policy settings) (values k) = .ok (values (k + 1)) :=
    (step_schedule cut _).trans (swept k)
  obtain ⟨parts, cut⟩ := cut
  choose passes passed sizes chosen using fun k => Model.bellman_exists listed known (size k) acts columnar
  cases policy with
  | none =>
    have decisions (k : Nat) : decided m (.infinite γ) none (schedule m none settings) (values k)
        = .ok (some (.stationary (passes k).actions)) := by
      rw [decided, Model.bellman_schedule cut, passed]
      rfl
    obtain ⟨n, j, stops, ran, warned⟩ :=
      run_stops (threshold_limit tolerance γ) printable capped first stepped decisions
    rw [← valueIteration_run resolved accepted] at ran
    exact ⟨values, _, j, first, swept, ran, stops, rfl, rfl, rfl, rfl, warned,
      fun _ => ⟨_, rfl, (sizes n).2, fun s inside numbers =>
        Model.bellman_greediest listed acts columnar known (size n) comparable (passed n) inside numbers⟩,
      fun some => absurd rfl some⟩
  | some p =>
    have undecided (k : Nat) : decided m (.infinite γ) (some p) (schedule m (some p) settings) (values k) = .ok none := rfl
    obtain ⟨n, j, stops, ran, warned⟩ :=
      run_stops (threshold_limit tolerance γ) printable capped first stepped undecided
    rw [← valueIteration_run resolved accepted] at ran
    refine ⟨values, _, j, first, swept, ran, stops, rfl, rfl, rfl, rfl, warned, fun none => ?_, fun _ => rfl⟩
    cases none

-- The second sweep changes nothing, just before the cap; but two sweeps are too few to find the values of a policy.
theorem valueIteration_counts_leaving :
    (∃ (values : Nat → Array (Extended ℚ)) (result : ValueIterationResult (Extended ℚ)) (j : Journal (Extended ℚ)),
      (valueIteration (.table Process.leaving.table) (.infinite (.finite (1 / 2))) none none
        (.quiet 2 (1 / 1000) 0)).runOn Journal.empty = (.ok result, j) ∧
      result.iterations = 2 ∧ result.value = .stationary (values 2) ∧ result.converged = true ∧
      result.trace.rows = [(1, .real (residual .supremum values 1)), (2, .real (residual .supremum values 2))] ∧
      j.warnings = [] ∧ ∃ actions, result.policy = some (.stationary actions) ∧
      ∀ s < 2, ∃ a : Nat, actions[s]? = some (a : Int) ∧
        (Model.table Process.leaving.table).Greediest (.objective (.infinite (.finite (1 / 2)))) (values 2) s a) ∧
    ∃ (values : Nat → Array (Extended ℚ)) (result : ValueIterationResult (Extended ℚ)) (j : Journal (Extended ℚ)),
      (valueIteration (.table Process.leaving.table) (.infinite (.finite (1 / 2)))
        (some (.policy (.stationary #[0, 0]))) none (.quiet 2 (1 / 1000) 0)).runOn Journal.empty = (.ok result, j) ∧
      result.iterations = 2 ∧ result.value = .stationary (values 2) ∧ result.converged = false ∧
      j.warnings = [.residualAbove 2 (residual .supremum values 2) (limit (.finite (1 / 1000)) (.finite (1 / 2)))] ∧
      result.policy = none := by
  have described := table_describes Process.leaving
  have tolerance : (Settings.quiet 2 (1 / 1000) 0 : Settings (Extended ℚ)).epsilon.value? = some (.finite (1 / 1000)) := rfl
  have resolved (given : Option (Policy (Extended ℚ))) :
      ((given.map PolicyData.policy).mapM PolicyData.resolve : Outcome (Extended ℚ) _) = .ok given := by
    cases given <;> rfl
  have answers (given : Option (Policy (Extended ℚ)))
      (accepted : ∀ p ∈ given, p.validate (.table Process.leaving.table) none = .ok () ∧ p.isStationary = true)
      (readable : ∀ p ∈ given, ∀ s < 2, p.Readable s) :=
    valueIteration_counts described.listed described.acts described.columnar (.finite (1 / 2)) tolerance (by decide) rfl
      (resolved given) accepted readable ⟨[List.range 2], rfl⟩ Extended.comparable
  constructor
  · obtain ⟨values, result, j, first, swept, ran, _, value, _, _, rows, warned, greedy, _⟩ :=
      answers none (by simp) (by simp)
    have ends : (valueIteration (.table Process.leaving.table) (.infinite (.finite (1 / 2))) none none
        (.quiet 2 (1 / 1000) 0)).returns Journal.empty (fun found => found.iterations == 2 && found.converged) = true := by
      decide +kernel
    obtain ⟨found, i, found_ran, ends⟩ := InPlace.runOn_of_returns ends
    obtain ⟨rfl, -⟩ : result = found ∧ j = i := by simpa using ran.symm.trans found_ran
    obtain ⟨twice, passed⟩ : result.iterations = 2 ∧ result.converged = true := by simpa using ends
    obtain ⟨actions, policy, _, decided⟩ := greedy rfl
    have finite (k : Nat) : ∃ u : Fin 2 → ℚ, values k = exactVector u := by
      induction k with
      | zero => exact ⟨0, first.trans (exactVector_zero 2)⟩
      | succ k ih =>
        obtain ⟨u, same⟩ := ih
        have next : step (.table Process.leaving.table) (.infinite (.finite (1 / 2))) none
            (schedule (.table Process.leaving.table) none (.quiet 2 (1 / 1000) 0)) (exactVector u)
            = .ok (values (k + 1)) := same ▸ swept k
        exact ⟨_, step_exact described (by simp) next⟩
    rw [passed, if_pos rfl] at warned
    rw [twice] at value rows decided
    refine ⟨values, result, j, ran, twice, value, passed, rows, warned, actions, policy, fun s inside => ?_⟩
    obtain ⟨u, same⟩ := finite 2
    exact decided s inside (same ▸ Model.worth_exact described rfl u ⟨s, inside⟩)
  · have valid := actionArray_valid described fun _ => (0 : Fin 2)
    obtain ⟨values, result, j, _, _, ran, _, value, _, _, _, warned, _, undecided⟩ :=
      answers (some (.stationary #[0, 0])) (by simpa using ⟨valid, rfl⟩) (by simp [Policy.Readable])
    have ends : (valueIteration (.table Process.leaving.table) (.infinite (.finite (1 / 2)))
        (some (.policy (.stationary #[0, 0]))) none (.quiet 2 (1 / 1000) 0)).returns Journal.empty
          (fun found => found.iterations == 2 && !found.converged) = true := by
      decide +kernel
    obtain ⟨found, i, found_ran, ends⟩ := InPlace.runOn_of_returns ends
    obtain ⟨rfl, -⟩ : result = found ∧ j = i := by simpa using ran.symm.trans found_ran
    obtain ⟨twice, missed⟩ : result.iterations = 2 ∧ result.converged = false := by simpa using ends
    rw [missed, if_neg (by simp), twice] at warned
    rw [twice] at value
    exact ⟨values, result, j, ran, twice, value, missed, warned, undecided (by simp)⟩

end Answers

end MarkovDecision
