import MarkovDecision.Proofs.ChosenActions
import MarkovDecision.Proofs.ToleratedEvaluation

namespace MarkovDecision

section Solving

variable {α : Type} [Scalar α]

namespace LinearSystem

theorem triangular_length {reduce : Equation α → Equation α → Equation α} (n : Nat) :
    ∀ {equations ts : List (Equation α)}, triangular reduce n equations = some ts → ts.length = n := by
  induction n with
  | zero =>
    intro equations ts made
    cases made
    rfl
  | succ n ih =>
    intro equations ts made
    rw [triangular] at made
    split at made
    · cases made
    · split at made
      · cases made
      · obtain ⟨rest, later, rfl⟩ := Option.map_eq_some_iff.mp made
        rw [List.length_cons, ih later]

omit [Scalar α] in
theorem backSubstitute_length (leadValue : Equation α → List α → α) (ts : List (Equation α)) :
    (backSubstitute leadValue ts).length = ts.length := by
  induction ts with
  | nil => rfl
  | cons e rest ih => rw [backSubstitute, List.length_cons, List.length_cons, ih]

theorem solution_length {reduce : Equation α → Equation α → Equation α} {leadValue : Equation α → List α → α}
    {equations : List (Equation α)} {xs : List α}
    (solved : (triangular reduce equations.length equations).map (backSubstitute leadValue) = some xs) :
    xs.length = equations.length := by
  obtain ⟨ts, made, rfl⟩ := Option.map_eq_some_iff.mp solved
  rw [backSubstitute_length, triangular_length _ made]

end LinearSystem

end Solving

section Evaluation

variable {α : Type} [Scalar α] {m : Model α} {given : PolicyData α} {o : Objective α}

theorem evaluatePolicy_size {sparse : Bool} {v : Array α}
    (found : evaluatePolicy m (.objective o) given sparse = .ok v) : v.size = m.stateCount := by
  cases sparse with
  | false =>
    obtain ⟨process, made, solved⟩ := Outcome.bind_ok.mp found
    obtain ⟨_, _, made⟩ := Outcome.bind_ok.mp made
    obtain ⟨rows, read, same⟩ := Outcome.bind_ok.mp made
    cases same
    have length := (Outcome.mapM_range_get read).1
    rw [RewardProcess.value] at solved
    split at solved
    · rename_i xs unique
      cases solved
      have size := LinearSystem.solution_length unique
      simpa [RewardProcess.equations, length] using size
    · cases solved
  | true =>
    obtain ⟨process, made, solved⟩ := Outcome.bind_ok.mp found
    cases solved
    obtain ⟨_, _, made⟩ := Outcome.bind_ok.mp made
    obtain ⟨rows, read, made⟩ := Outcome.bind_ok.mp made
    obtain ⟨transition, columns, same⟩ := Outcome.bind_ok.mp made
    cases same
    have length := (Outcome.mapM_range_get read).1
    obtain ⟨entries, each, rfl⟩ := Option.map_eq_some_iff.mp (Outcome.ofOption_ok.mp columns)
    have width := (Outcome.mapM_eq_some.mp each).length_eq
    rw [SparseRewardProcess.value]
    split
    · rename_i xs unique
      have size := LinearSystem.solution_length unique
      simpa [SparseRewardProcess.equations, ← width, length] using size
    · simp [length]

structure Model.FirstRepeat (m : Model α) (actions : Array Int) (s : Nat) (a : Int) : Prop where
  inside : s < m.stateCount
  taken : actions[s]? = some a
  twice : m.Repeats s a
  before : ∀ r < s, ∀ b, actions[r]? = some b → ¬m.Repeats r b

omit [Scalar α] in
theorem Model.exists_firstRepeat {actions : Array Int}
    (somewhere : ∃ s, s < m.stateCount ∧ ∃ a, actions[s]? = some a ∧ m.Repeats s a) : ∃ s a, m.FirstRepeat actions s a := by
  classical
  obtain ⟨s, ⟨inside, a, taken, twice⟩, least⟩ := Nat.findX somewhere
  exact ⟨s, a, inside, taken, twice, fun r earlier b there again =>
    least r earlier ⟨earlier.trans inside, b, there, again⟩⟩

theorem Policy.takes_offered (listed : m.Listed) {actions : Array Int}
    (valid : (Policy.stationary actions).validate m none = .ok ()) {s : Nat} (inside : s < m.stateCount) :
    ∃ a : Nat, actions[s]? = some (a : Int) ∧ m.Offers s a := by
  obtain ⟨k, count, _⟩ := listed s inside
  rcases Policy.valid_rule valid rfl with ⟨_, same, _, each⟩ | ⟨_, same, _⟩
  · cases same
    obtain ⟨a, below, taken⟩ := Policy.checkAction_ok count (each s inside)
    exact ⟨a, taken, inside, k, count, below⟩
  · cases same

theorem collectedRows_first (listed : m.Listed) {actions : Array Int}
    (valid : (Policy.stationary actions).validate m none = .ok ()) :
    (∃ s a, m.FirstRepeat actions s a ∧ ∃ l, RewardProcess.collectedRows m (.policy (.stationary actions))
      = .error (.repeatedTransition (s : Nat) a l)) ∨
    (¬∃ s a, m.FirstRepeat actions s a) ∧ ∃ rows, RewardProcess.collectedRows m (.policy (.stationary actions))
      = .ok rows := by
  have accepted : stationaryPolicy m (.policy (.stationary actions)) = .ok (.stationary actions) :=
    stationaryPolicy_ok.mpr ⟨rfl, valid, rfl⟩
  have fate (s : Nat) (inside : s < m.stateCount) := RewardProcess.fate listed valid rfl inside
  have opening : RewardProcess.collectedRows m (.policy (.stationary actions))
      = (List.range m.stateCount).mapM (RewardProcess.collected m (.stationary actions)) := by
    rw [RewardProcess.collectedRows, accepted, Outcome.ok_bind]
  by_cases somewhere : ∃ s, s < m.stateCount ∧ ∃ a, actions[s]? = some a ∧ m.Repeats s a
  · obtain ⟨s, a, first⟩ := Model.exists_firstRepeat somewhere
    refine Or.inl ⟨s, a, first, ?_⟩
    rw [opening]
    cases fate s first.inside with
    | unread unreadable => exact absurd trivial unreadable
    | kept _ once => exact absurd ⟨a, first.taken, first.twice⟩ once
    | repeated _ b there _ failed =>
      obtain rfl : a = b := Option.some.inj (first.taken.symm.trans there)
      obtain ⟨l, failed⟩ := failed
      refine ⟨l, Outcome.mapM_range_error.mpr ⟨s, first.inside, fun r earlier => ?_, failed⟩⟩
      cases fate r (earlier.trans first.inside) with
      | unread unreadable => exact absurd trivial unreadable
      | repeated _ b there again => exact absurd again (first.before r earlier b there)
      | kept _ _ done => exact done
  · have nowhere : ¬∃ s a, m.FirstRepeat actions s a := by
      rintro ⟨s, a, first⟩
      exact somewhere ⟨s, first.inside, a, first.taken, first.twice⟩
    refine Or.inr ⟨nowhere, ?_⟩
    rw [opening]
    cases walked : (List.range m.stateCount).mapM (RewardProcess.collected m (.stationary actions)) with
    | ok rows => exact ⟨rows, rfl⟩
    | error e =>
      obtain ⟨s, inside, _, failed⟩ := Outcome.mapM_range_error.mp walked
      cases fate s inside with
      | unread unreadable => exact absurd trivial unreadable
      | repeated _ a taken twice => exact absurd ⟨s, inside, a, taken, twice⟩ somewhere
      | kept _ _ done =>
        obtain ⟨x, done⟩ := done
        cases failed.symm.trans done

theorem evaluatePolicy_collected (listed : m.Listed) (given : PolicyData α) (sparse : Bool) {e : Failure α}
    (structural : e.kind = .structural) : evaluatePolicy m (.objective o) given sparse = .error e ↔
      RewardProcess.collectedRows m given = .error e := by
  cases sparse with
  | false =>
    rw [evaluatePolicy, if_neg Bool.false_ne_true, RewardProcess.ofPolicy_collected listed]
    cases RewardProcess.collectedRows m given with
    | error e' => rw [Outcome.map_error, Outcome.error_bind, Except.error.injEq, Except.error.injEq]
    | ok rows =>
      refine ⟨fun failed => ?_, fun failed => by cases failed⟩
      rw [Outcome.map_ok, Outcome.ok_bind, RewardProcess.value] at failed
      split at failed
      · cases failed
      · cases failed
        cases structural
  | true =>
    rw [evaluatePolicy, if_pos rfl, SparseRewardProcess.ofPolicy_collected listed]
    cases RewardProcess.collectedRows m given with
    | error e' => rw [Outcome.map_error, Outcome.error_bind, Except.error.injEq, Except.error.injEq]
    | ok rows => exact ⟨fun failed => (by cases failed), fun failed => (by cases failed)⟩

structure Model.Refuses (m : Model α) (actions : Array Int) (e : Failure α) : Prop where
  valid : (Policy.stationary actions).validate m none = .ok ()
  first : ∃ s a l, m.FirstRepeat actions s a ∧ e = .repeatedTransition (s : Nat) a l

theorem evaluatePolicy_refuses (listed : m.Listed) {actions : Array Int} {sparse : Bool} {e : Failure α}
    (failed : evaluatePolicy m (.objective o) (.policy (.stationary actions)) sparse = .error e)
    (structural : e.kind = .structural) : m.Refuses actions e := by
  rw [evaluatePolicy_collected listed _ sparse structural] at failed
  cases accepted : stationaryPolicy m (.policy (.stationary actions)) with
  | error e' =>
    rw [RewardProcess.collectedRows, accepted] at failed
    cases failed
    refine absurd structural (stationaryPolicy_failure (fun s inside => ?_) accepted)
    obtain ⟨k, count, _⟩ := listed s inside
    exact ⟨_, count⟩
  | ok p =>
    obtain ⟨resolved, valid, _⟩ := stationaryPolicy_ok.mp accepted
    cases resolved
    rcases collectedRows_first listed valid with ⟨s, a, first, l, stopped⟩ | ⟨_, rows, walked⟩
    · exact ⟨valid, s, a, l, first, Except.error.inj (failed.symm.trans stopped)⟩
    · cases failed.symm.trans walked

theorem evaluatePolicy_repeats (listed : m.Listed) {actions : Array Int}
    (valid : (Policy.stationary actions).validate m none = .ok ()) {s : Nat} {a : Int}
    (first : m.FirstRepeat actions s a) (sparse : Bool) : ∃ e,
      evaluatePolicy m (.objective o) (.policy (.stationary actions)) sparse = .error e ∧ e.kind = .structural := by
  rcases collectedRows_first listed valid with ⟨s', a', _, l, stopped⟩ | ⟨nowhere, _⟩
  · exact ⟨_, (evaluatePolicy_collected listed _ sparse rfl).mpr stopped, rfl⟩
  · exact absurd ⟨s, a, first⟩ nowhere

end Evaluation

namespace PolicyIteration

section Loop

variable {α : Type} {improve : Array Int → Outcome α (Array α × Array Int)}

-- The policies that come to be evaluated, if round after round succeeds and changes an action.
inductive Reached (improve : Array Int → Outcome α (Array α × Array Int)) : Array Int → Nat → Array Int → Prop
  | start (actions : Array Int) : Reached improve actions 0 actions
  | next {first second last : Array Int} {value : Array α} {i : Nat} (improved : improve first = .ok (value, second))
      (changed : changedActions first second ≠ 0) (later : Reached improve second i last) :
      Reached improve first (i + 1) last

theorem iterate_error {e : Failure α} (fuel : Nat) : ∀ (done : Nat) (p : Progress α) (j : Journal α),
    (∃ j', (iterate improve fuel done p).runOn j = (.error e, j')) ↔
      ∃ i < fuel, ∃ actions, Reached improve p.actions i actions ∧ improve actions = .error e := by
  induction fuel with
  | zero =>
    intro done p j
    constructor
    · rintro ⟨j', ran⟩
      cases ran
    · rintro ⟨i, none, _⟩
      exact absurd none (Nat.not_lt_zero i)
  | succ fuel ih =>
    intro done p j
    cases round : improve p.actions with
    | error e' =>
      rw [iterate_failed round]
      constructor
      · rintro ⟨j', ran⟩
        cases ran
        exact ⟨0, Nat.succ_pos fuel, p.actions, .start _, round⟩
      · rintro ⟨i, _, actions, reached, failed⟩
        cases reached with
        | start =>
          cases round.symm.trans failed
          exact ⟨j, rfl⟩
        | next improved => cases round.symm.trans improved
    | ok found =>
      obtain ⟨value, second⟩ := found
      rw [iterate_opened round]
      split
      · rename_i stable
        constructor
        · rintro ⟨j', ran⟩
          cases ran
        · rintro ⟨i, _, actions, reached, failed⟩
          cases reached with
          | start => cases round.symm.trans failed
          | next improved changed =>
            cases round.symm.trans improved
            exact absurd (by simpa using stable) changed
      · rename_i moved
        rw [ih]
        constructor
        · rintro ⟨i, within, actions, reached, failed⟩
          exact ⟨i + 1, Nat.succ_lt_succ within, actions, .next round (by simpa using moved) reached, failed⟩
        · rintro ⟨i, within, actions, reached, failed⟩
          cases reached with
          | start => cases round.symm.trans failed
          | next improved _ later =>
            cases round.symm.trans improved
            exact ⟨_, Nat.lt_of_succ_lt_succ within, actions, later, failed⟩

end Loop

section Runs

variable {α : Type} [Scalar α] {m : Model α} {γ : α} {settings : Settings α} {initial : Option (PolicyData α)}
  {first : Array Int} {sparse : Bool}

theorem initialActions_valid (listed : m.Listed) (acts : ∀ s < m.stateCount, m.actionCount (s : Nat) ≠ .ok 0)
    (known : initialActions m initial = .ok first) : (Policy.stationary first).validate m none = .ok () := by
  rcases initialActions_ok known with ⟨_, rfl⟩ | valid
  · refine Policy.validate_checked rfl (Policy.checkStage_stationary.mpr ⟨Array.size_replicate, fun s inside => ?_⟩)
    obtain ⟨k, count, _⟩ := listed s inside
    have positive : 0 < k := Nat.pos_of_ne_zero fun none => acts s inside (by rw [count, none]; rfl)
    exact (Policy.checkAction_iff count).mpr ⟨0, positive, by simp [inside]⟩
  · exact valid

section Started

variable (printable : (settings.verbose && settings.lineLength.isNone) = false)
  (known : initialActions m initial = .ok first)

include printable known

theorem policyIteration_fails (j : Journal α) {e : Failure α} {j' : Journal α} :
    (policyIteration m (.infinite γ) initial settings sparse).runOn j = (.error e, j') ↔
      (iterate (improve m (.infinite γ) sparse) settings.iterations 0 ⟨#[], first, 0, false⟩).runOn (opened m γ sparse j)
        = (.error e, j') := by
  rw [policyIteration_loop printable known]
  rcases (iterate (improve m (.infinite γ) sparse) settings.iterations 0 ⟨#[], first, 0, false⟩).runOn
    (opened m γ sparse j) with ⟨e' | q, k⟩
  · simp only [Prod.mk.injEq, Except.error.injEq]
  · exact ⟨fun ran => (by cases ran), fun ran => (by cases ran)⟩

theorem policyIteration_error {e : Failure α} (j : Journal α) :
    (∃ j', (policyIteration m (.infinite γ) initial settings sparse).runOn j = (.error e, j')) ↔
      ∃ i < settings.iterations, ∃ actions, Reached (improve m (.infinite γ) sparse) first i actions ∧
        improve m (.infinite γ) sparse actions = .error e := by
  rw [← iterate_error settings.iterations 0 ⟨#[], first, 0, false⟩ (opened m γ sparse j)]
  exact exists_congr fun _ => policyIteration_fails printable known j

theorem policyIteration_first {e : Failure α} (capped : 0 < settings.iterations)
    (failed : improve m (.infinite γ) sparse first = .error e) (j : Journal α) : ∃ j',
      (policyIteration m (.infinite γ) initial settings sparse).runOn j = (.error e, j') ∧ j'.rows = j.rows := by
  obtain ⟨fuel, cap⟩ := Nat.exists_eq_succ_of_ne_zero capped.ne'
  refine ⟨opened m γ sparse j, (policyIteration_fails printable known j).mpr ?_, opened_rows m γ sparse j⟩
  rw [cap]
  exact iterate_failed failed _

end Started

variable (listed : m.Listed) (acts : ∀ s < m.stateCount, m.actionCount (s : Nat) ≠ .ok 0) (columnar : m.Columnar)

include listed acts columnar

theorem improve_error {actions : Array Int} {e : Failure α} : improve m (.infinite γ) sparse actions = .error e ↔
    evaluatePolicy m (.objective (.infinite γ)) (.policy (.stationary actions)) sparse = .error e := by
  have known : (Goal.objective (.infinite γ)).discount = .ok γ := rfl
  rw [improve]
  cases evaluated : evaluatePolicy m (.objective (.infinite γ)) (.policy (.stationary actions)) sparse with
  | error e' => rw [Outcome.error_bind, Except.error.injEq, Except.error.injEq]
  | ok v =>
    obtain ⟨b, swept, _⟩ := Model.bellman_exists listed known (evaluatePolicy_size evaluated) acts columnar
    rw [Outcome.ok_bind, swept]
    exact ⟨fun failed => (by cases failed), fun failed => (by cases failed)⟩

-- A run is refused for a repeated next state exactly if it comes to a policy that takes an action which lists one; it
-- names the first state where that policy does. So a state in which every action repeats a next state is refused
-- before the first round has ended, and a model without such actions never. In between it depends on the path.
theorem repeats_refused_on_path (printable : (settings.verbose && settings.lineLength.isNone) = false)
    (known : initialActions m initial = .ok first) (j : Journal α) :
    ((∃ e j', (policyIteration m (.infinite γ) initial settings sparse).runOn j = (.error e, j') ∧
        e.kind = .structural) ↔
      ∃ i < settings.iterations, ∃ actions, Reached (improve m (.infinite γ) sparse) first i actions ∧
        (Policy.stationary actions).validate m none = .ok () ∧ ∃ s a, m.FirstRepeat actions s a) ∧
    (∀ e j', (policyIteration m (.infinite γ) initial settings sparse).runOn j = (.error e, j') →
      e.kind = .structural → ∃ i < settings.iterations, ∃ actions,
        Reached (improve m (.infinite γ) sparse) first i actions ∧ m.Refuses actions e) ∧
    (0 < settings.iterations → (∃ s a, m.FirstRepeat first s a) → ∃ e j',
      (policyIteration m (.infinite γ) initial settings sparse).runOn j = (.error e, j') ∧ e.kind = .structural ∧
        j'.rows = j.rows) ∧
    (0 < settings.iterations → (∃ s < m.stateCount, ∀ a, m.Offers s a → m.Repeats s a) → ∃ e j',
      (policyIteration m (.infinite γ) initial settings sparse).runOn j = (.error e, j') ∧ e.kind = .structural ∧
        j'.rows = j.rows) ∧
    ((∀ s a, m.Offers s a → ¬m.Repeats s a) → ∀ e j',
      (policyIteration m (.infinite γ) initial settings sparse).runOn j = (.error e, j') → e.kind ≠ .structural) := by
  have named {e : Failure α} {j' : Journal α}
      (ran : (policyIteration m (.infinite γ) initial settings sparse).runOn j = (.error e, j'))
      (structural : e.kind = .structural) : ∃ i < settings.iterations, ∃ actions,
        Reached (improve m (.infinite γ) sparse) first i actions ∧ m.Refuses actions e := by
    obtain ⟨i, within, actions, reached, failed⟩ := (policyIteration_error printable known j).mp ⟨j', ran⟩
    rw [improve_error listed acts columnar] at failed
    exact ⟨i, within, actions, reached, evaluatePolicy_refuses listed failed structural⟩
  have valid := initialActions_valid listed acts known
  have opening (capped : 0 < settings.iterations) (repeats : ∃ s a, m.FirstRepeat first s a) : ∃ e j',
      (policyIteration m (.infinite γ) initial settings sparse).runOn j = (.error e, j') ∧ e.kind = .structural ∧
        j'.rows = j.rows := by
    obtain ⟨s, a, repeats⟩ := repeats
    obtain ⟨e, failed, structural⟩ := evaluatePolicy_repeats listed valid repeats sparse
    rw [← improve_error listed acts columnar] at failed
    obtain ⟨j', ran, rows⟩ := policyIteration_first printable known capped failed j
    exact ⟨e, j', ran, structural, rows⟩
  refine ⟨⟨?_, ?_⟩, fun e j' => named, opening, fun capped everywhere => opening capped ?_, fun nowhere e j' ran structural => ?_⟩
  · rintro ⟨e, j', ran, structural⟩
    obtain ⟨i, within, actions, reached, valid, s, a, _, repeats, _⟩ := named ran structural
    exact ⟨i, within, actions, reached, valid, s, a, repeats⟩
  · rintro ⟨i, within, actions, reached, valid, s, a, repeats⟩
    obtain ⟨e, failed, structural⟩ := evaluatePolicy_repeats listed valid repeats sparse
    rw [← improve_error listed acts columnar] at failed
    obtain ⟨j', ran⟩ := (policyIteration_error printable known j).mpr ⟨i, within, actions, reached, failed⟩
    exact ⟨e, j', ran, structural⟩
  · obtain ⟨s, inside, repeats⟩ := everywhere
    obtain ⟨a, taken, offered⟩ := Policy.takes_offered listed valid inside
    exact Model.exists_firstRepeat ⟨s, inside, a, taken, repeats a offered⟩
  · obtain ⟨_, _, actions, _, valid, s, a, _, repeats, _⟩ := named ran structural
    obtain ⟨b, taken, offered⟩ := Policy.takes_offered listed valid repeats.inside
    obtain rfl : a = b := Option.some.inj (repeats.taken.symm.trans taken)
    exact nowhere s b offered repeats.twice

end Runs

end PolicyIteration

section Instances

def Process.shadowed (r : ℚ) : Process 1 ℚ where
  actionCount _ := 2
  hasAction _ := Nat.two_pos
  branches s a := if (a : Nat) = 0 then [⟨s, 1, 1⟩] else [⟨s, 1 / 2, r⟩, ⟨s, 1 / 2, r⟩]

theorem Process.shadowed_repeats (r : ℚ) : (Model.table (Process.shadowed r).table).Repeats 0 1 :=
  ⟨_, rfl, by simp [Process.shadowed, Branch.transition]⟩

def PolicyIteration.refused (r : ℚ) (initial : Option (PolicyData (Extended ℚ))) (sparse : Bool) : Bool :=
  match ((policyIteration (.table (Process.shadowed r).table) (.infinite (.finite (1 / 2))) initial (.quiet 10 1 0)
    sparse).runOn Journal.empty).1 with
  | .error e => e.kind == .structural
  | .ok _ => false

def PolicyIteration.settled (r : ℚ) (initial : Option (PolicyData (Extended ℚ))) (sparse : Bool) : Bool :=
  (policyIteration (.table (Process.shadowed r).table) (.infinite (.finite (1 / 2))) initial (.quiet 10 1 0)
    sparse).returns Journal.empty fun result => result.converged

theorem PolicyIteration.exists_refused {r : ℚ} {initial : Option (PolicyData (Extended ℚ))} {sparse : Bool}
    (found : refused r initial sparse = true) : ∃ e j, (policyIteration (.table (Process.shadowed r).table)
      (.infinite (.finite (1 / 2))) initial (.quiet 10 1 0) sparse).runOn Journal.empty = (.error e, j) ∧
        e.kind = .structural := by
  unfold refused at found
  generalize (policyIteration (.table (Process.shadowed r).table) (.infinite (.finite (1 / 2))) initial (.quiet 10 1 0)
    sparse).runOn Journal.empty = ran at found ⊢
  obtain ⟨e | result, j⟩ := ran
  · exact ⟨e, j, rfl, by simpa using found⟩
  · cases found

-- The second action lists a next state twice, whatever it pays. The run is refused if it starts
-- with that action, not if it never takes it, and from the same start if the action pays enough to
-- be taken.
theorem refusal_depends_on_path : (∀ r, (Model.table (Process.shadowed r).table).Repeats 0 1) ∧
    (∀ sparse, PolicyIteration.refused 0 (some (.policy (.stationary #[1]))) sparse = true) ∧
    (∀ sparse, PolicyIteration.settled 0 none sparse = true) ∧
    ∀ sparse, PolicyIteration.refused 3 none sparse = true := by
  refine ⟨Process.shadowed_repeats, ?_, ?_, ?_⟩ <;> decide +kernel

namespace PolicyIteration

theorem repeats_refused_on_path_shadowed :
    (∃ e j, (policyIteration (.table (Process.shadowed 0).table) (.infinite (.finite (1 / 2)))
      (some (.policy (.stationary #[1]))) (.quiet 10 1 0) false).runOn Journal.empty = (.error e, j) ∧
      e.kind = .structural ∧ j.rows = []) ∧
    ∃ i < 10, ∃ actions e, Reached (improve (.table (Process.shadowed 3).table) (.infinite (.finite (1 / 2))) true)
      #[0] i actions ∧ (Model.table (Process.shadowed 3).table).Refuses actions e := by
  have printable : ((Settings.quiet 10 1 0 : Settings (Extended ℚ)).verbose &&
      (Settings.quiet 10 1 0 : Settings (Extended ℚ)).lineLength.isNone) = false := rfl
  constructor
  · have described := table_describes (Process.shadowed 0)
    have known : initialActions (.table (Process.shadowed 0).table) (some (.policy (.stationary #[1])))
        = (.ok #[1] : Outcome (Extended ℚ) _) := rfl
    have first : (Model.table (Process.shadowed 0).table).FirstRepeat #[1] 0 1 :=
      ⟨Nat.one_pos, rfl, Process.shadowed_repeats 0, fun r none => absurd none (Nat.not_lt_zero r)⟩
    exact (repeats_refused_on_path described.listed described.acts described.columnar printable known
      Journal.empty).2.2.1 (by decide) ⟨0, 1, first⟩
  · have described := table_describes (Process.shadowed 3)
    have known : initialActions (.table (Process.shadowed 3).table) none = (.ok #[0] : Outcome (Extended ℚ) _) := rfl
    have refused : refused 3 none true = true := by
      decide +kernel
    obtain ⟨e, j, ran, structural⟩ := exists_refused refused
    obtain ⟨i, within, actions, reached, refuses⟩ := (repeats_refused_on_path described.listed described.acts
      described.columnar printable known Journal.empty).2.1 e j ran structural
    exact ⟨i, within, actions, e, reached, refuses⟩

end PolicyIteration

end Instances

end MarkovDecision
