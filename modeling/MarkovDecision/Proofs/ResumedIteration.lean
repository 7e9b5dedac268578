import MarkovDecision.Proofs.GuardedPasses
import MarkovDecision.Proofs.RepeatedTransitions

namespace MarkovDecision

def Settings.capped {α : Type} (settings : Settings α) (rounds : Nat) : Settings α :=
  { settings with iterations := rounds }

@[simp] theorem Settings.capped_iterations {α : Type} (settings : Settings α) (rounds : Nat) :
    (settings.capped rounds).iterations = rounds := rfl

namespace PolicyIteration

section Loop

variable {α : Type} {improve : Array Int → Outcome α (Array α × Array Int)} {k fuel done : Nat} {p q : Progress α}
  {j j' : Journal α}

def renumbered (k : Nat) (rows : List (Nat × Quantity α)) : List (Nat × Quantity α) :=
  rows.map fun (step, changed) => (k + step, changed)

def Progress.ahead (k : Nat) (p : Progress α) : Progress α := { p with iterations := k + p.iterations }

theorem iterate_add (k fuel : Nat) : ∀ {done : Nat} {p : Progress α} {j : Journal α},
    (iterate improve k done p).runOn j = (.ok q, j') → q.converged = false →
    (iterate improve (k + fuel) done p).runOn j = (iterate improve fuel (done + k) q).runOn j' := by
  induction k with
  | zero =>
    intro done p j ran _
    cases ran
    rw [Nat.zero_add, Nat.add_zero]
  | succ k ih =>
    intro done p j ran unstable
    have split : k + 1 + fuel = k + fuel + 1 := by omega
    rw [split]
    cases round : improve p.actions with
    | error e =>
      rw [iterate_failed round] at ran
      cases ran
    | ok found =>
      obtain ⟨value, next⟩ := found
      rw [iterate_opened round] at ran ⊢
      split at ran
      · cases ran
        cases unstable
      · rename_i moved
        rw [if_neg moved, ih ran unstable, Nat.add_assoc, Nat.add_comm 1 k]

theorem iterate_unstable (k : Nat) : ∀ {done : Nat} {p : Progress α} {j : Journal α},
    (iterate improve k done p).runOn j = (.ok q, j') → p.iterations = done → q.converged = false →
    q.iterations = done + k ∧ ∃ rows, j'.rows = j.rows ++ rows ∧ rows.length = k := by
  induction k with
  | zero =>
    intro done p j ran count _
    cases ran
    exact ⟨count, [], (List.append_nil _).symm, rfl⟩
  | succ k ih =>
    intro done p j ran count unstable
    cases round : improve p.actions with
    | error e =>
      rw [iterate_failed round] at ran
      cases ran
    | ok found =>
      obtain ⟨value, next⟩ := found
      rw [iterate_opened round] at ran
      split at ran
      · cases ran
        cases unstable
      · obtain ⟨count, rows, written, length⟩ := ih ran rfl unstable
        refine ⟨by omega, (done + 1, .whole (changedActions p.actions next)) :: rows, ?_, congrArg (· + 1) length⟩
        rw [written, Journaled.rows_push_row, List.append_assoc, List.singleton_append]

theorem iterate_stable (k : Nat) : ∀ {done : Nat} {p : Progress α} {j : Journal α}, p.converged = false →
    (iterate improve k done p).runOn j = (.ok q, j') → q.converged = true →
    ∃ last, improve last = .ok (q.value, q.actions) ∧ changedActions last q.actions = 0 := by
  induction k with
  | zero =>
    intro done p j opening ran stable
    cases ran
    cases opening.symm.trans stable
  | succ k ih =>
    intro done p j _ ran stable
    cases round : improve p.actions with
    | error e =>
      rw [iterate_failed round] at ran
      cases ran
    | ok found =>
      obtain ⟨value, next⟩ := found
      rw [iterate_opened round] at ran
      split at ran
      · rename_i same
        cases ran
        exact ⟨p.actions, round, by simpa using same⟩
      · exact ih rfl ran stable

theorem iterate_start (same : p.actions = q.actions) :
    iterate improve (fuel + 1) done p = iterate improve (fuel + 1) done q := by
  rw [iterate, iterate, same]

-- Two loops of which the second is k rounds ahead: both fail with the same, or both end alike and have written the
-- same rows, the second under later numbers.
inductive Ahead (k : Nat) (before before' : List (Nat × Quantity α)) :
    Outcome α (Progress α) × Journal α → Outcome α (Progress α) × Journal α → Prop
  | failed {e : Failure α} {j j' : Journal α} : Ahead k before before' (.error e, j) (.error e, j')
  | ended {q : Progress α} {j j' : Journal α} {rows : List (Nat × Quantity α)} (written : j.rows = before ++ rows)
      (written' : j'.rows = before' ++ renumbered k rows) : Ahead k before before' (.ok q, j) (.ok (q.ahead k), j')

theorem Ahead.after {before before' : List (Nat × Quantity α)} {step : Nat} {changed : Quantity α}
    {x y : Outcome α (Progress α) × Journal α}
    (later : Ahead k (before ++ [(step, changed)]) (before' ++ [(k + step, changed)]) x y) : Ahead k before before' x y := by
  cases later with
  | failed => exact .failed
  | ended written written' =>
    rw [List.append_assoc] at written written'
    exact .ended written written'

theorem iterate_ahead (k fuel : Nat) : ∀ (done : Nat) (p : Progress α) (j j' : Journal α),
    Ahead k j.rows j'.rows ((iterate improve fuel done p).runOn j)
      ((iterate improve fuel (k + done) (p.ahead k)).runOn j') := by
  induction fuel with
  | zero => exact fun done p j j' => .ended (List.append_nil _).symm (List.append_nil _).symm
  | succ fuel ih =>
    intro done p j j'
    cases round : improve p.actions with
    | error e =>
      have round' : improve (p.ahead k).actions = .error e := round
      rw [iterate_failed round, iterate_failed round']
      exact .failed
    | ok found =>
      obtain ⟨value, next⟩ := found
      have round' : improve (p.ahead k).actions = .ok (value, next) := round
      have same : (p.ahead k).actions = p.actions := rfl
      rw [iterate_opened round, iterate_opened round', same]
      have row (done : Nat) (j : Journal α) := Journaled.rows_push_row j done (.whole (changedActions p.actions next))
      split
      · exact .ended (row _ _) (row _ _)
      · have later := ih (done + 1) ⟨value, next, done + 1, false⟩
          (j.push (.row (done + 1) (.whole (changedActions p.actions next))))
          (j'.push (.row (k + done + 1) (.whole (changedActions p.actions next))))
        rw [row, row] at later
        exact later.after

end Loop

section Rounds

variable {α : Type} [Scalar α] {m : Model α} {o : Objective α} {sparse : Bool} {actions next : Array Int}
  {value : Array α}

theorem initialActions_stationary (actions : Array Int) : initialActions m (some (.policy (.stationary actions)))
    = do (Policy.stationary actions).validate m none; return actions := by
  rw [initialActions, PolicyData.validate, PolicyData.resolve, Outcome.ok_bind]
  cases (Policy.stationary actions).validate m none <;> rfl

theorem improve_invalid {e : Failure α} (invalid : (Policy.stationary actions).validate m none = .error e) :
    improve m o sparse actions = .error e := by
  have refused : stationaryPolicy m (.policy (.stationary actions)) = .error e := by
    rw [stationaryPolicy, PolicyData.validate, PolicyData.resolve, Outcome.ok_bind, invalid]
    rfl
  cases sparse with
  | true => rw [improve, evaluatePolicy, if_pos rfl, SparseRewardProcess.ofPolicy, refused]; rfl
  | false => rw [improve, evaluatePolicy, if_neg Bool.false_ne_true, RewardProcess.ofPolicy, refused]; rfl

theorem improve_evaluates (round : improve m o sparse actions = .ok (value, next)) :
    evaluatePolicy m (.objective o) (.policy (.stationary actions)) sparse = .ok value ∧
      ∃ buffers, m.bellman (.objective o) value .serial = .ok buffers ∧ buffers.actions = next := by
  obtain ⟨v, evaluated, round⟩ := Outcome.bind_ok.mp round
  obtain ⟨buffers, swept, same⟩ := Outcome.bind_ok.mp round
  cases same
  exact ⟨evaluated, buffers, swept, rfl⟩

theorem improve_sizes (round : improve m o sparse actions = .ok (value, next)) :
    (Policy.stationary actions).validate m none = .ok () ∧ actions.size = m.stateCount ∧ next.size = m.stateCount := by
  obtain ⟨_, buffers, swept, rfl⟩ := improve_evaluates round
  cases valid : (Policy.stationary actions).validate m none with
  | error e => cases (improve_invalid valid).symm.trans round
  | ok _ =>
    refine ⟨rfl, ?_, (Model.bellman_size swept).2⟩
    rcases Policy.valid_rule valid rfl with ⟨_, same, size, _⟩ | ⟨_, same, _⟩
    · cases same
      exact size
    · cases same

theorem improve_again {other : Array Int} {v : Array α} (round : improve m o sparse actions = .ok (value, next))
    (evaluated : evaluatePolicy m (.objective o) (.policy (.stationary other)) sparse = .ok v) :
    ∃ next', improve m o sparse other = .ok (v, next') := by
  obtain ⟨before, buffers, swept, _⟩ := improve_evaluates round
  have size := (evaluatePolicy_size evaluated).trans (evaluatePolicy_size before).symm
  obtain ⟨_, again⟩ := Model.bellman_again size swept
  rw [improve, evaluated, Outcome.ok_bind, again]
  exact ⟨_, rfl⟩

end Rounds

section Runs

variable {α : Type} [Scalar α]

def answer (m : Model α) (γ : α) (initial : Option (PolicyData α)) (settings : Settings α) (sparse : Bool)
    (rounds : Nat) : Outcome α (PolicyIterationResult α) :=
  ((policyIteration m (.infinite γ) initial (settings.capped rounds) sparse).runOn Journal.empty).1

def loop (m : Model α) (γ : α) (sparse : Bool) (first : Array Int) (rounds : Nat) : Outcome α (Progress α) × Journal α :=
  (iterate (improve m (.infinite γ) sparse) rounds 0 ⟨#[], first, 0, false⟩).runOn (opened m γ sparse Journal.empty)

def Evaluable (m : Model α) (γ : α) (initial : Option (PolicyData α)) (sparse : Bool) (rounds : Nat) : Prop :=
  ∀ first, initialActions m initial = .ok first → ∀ i < rounds, ∀ actions,
    Reached (improve m (.infinite γ) sparse) first i actions →
      ∃ value, evaluatePolicy m (.objective (.infinite γ)) (.policy (.stationary actions)) sparse = .ok value

-- The second result is that of a run that takes up what the first one, of k rounds, has left; the third that of a run
-- that did not stop in between. They end alike, and the trace of the second is the rest of the third.
structure Continues (k : Nat) (part again whole : PolicyIterationResult α) : Prop where
  value : again.value = whole.value
  policy : again.policy = whole.policy
  converged : again.converged = whole.converged
  iterations : whole.iterations = k + again.iterations
  trace : whole.trace = { again.trace with rows := part.trace.rows ++ renumbered k again.trace.rows }

def Resumed (m : Model α) (γ : α) (initial : Option (PolicyData α)) (settings : Settings α) (sparse : Bool) (k rounds : Nat)
    (part : PolicyIterationResult α) : Prop :=
  ∃ again whole, answer m γ (some (.policy part.policy)) settings sparse rounds = .ok again ∧
    answer m γ initial settings sparse (k + rounds) = .ok whole ∧ Continues k part again whole

variable {m : Model α} {γ : α} {initial : Option (PolicyData α)} {settings : Settings α} {sparse : Bool}
  {rounds k : Nat} {part : PolicyIterationResult α}

section Started

variable (printable : (settings.verbose && settings.lineLength.isNone) = false)

include printable

theorem answer_refused {e : Failure α} (refused : initialActions m initial = .error e) :
    answer m γ initial settings sparse rounds = .error e := by
  have printable : ((settings.capped rounds).verbose && (settings.capped rounds).lineLength.isNone) = false := printable
  obtain ⟨_, opening⟩ := Journaled.begin_yields printable (algorithm sparse) valueName (.infinite γ) m.stateCount Journal.empty
  unfold answer policyIteration
  dsimp only
  rw [InPlace.runOn_bind_ok opening, refused]
  rfl

theorem answer_loop {first : Array Int} (known : initialActions m initial = .ok first) :
    answer m γ initial settings sparse rounds
      = match loop m γ sparse first rounds with
        | (.ok q, j) => .ok (q.result j.rows)
        | (.error e, _) => .error e := by
  have printable : ((settings.capped rounds).verbose && (settings.capped rounds).lineLength.isNone) = false := printable
  rw [answer, policyIteration_loop printable known, Settings.capped_iterations, ← loop]
  rcases loop m γ sparse first rounds with ⟨_ | _, _⟩ <;> rfl

end Started

theorem answer_ok (ran : answer m γ initial settings sparse rounds = .ok part) :
    (settings.verbose && settings.lineLength.isNone) = false ∧ ∃ first q j, initialActions m initial = .ok first ∧
      loop m γ sparse first rounds = (.ok q, j) ∧ part = q.result j.rows := by
  obtain ⟨printable, first, known⟩ := policyIteration_starts (Prod.ext ran rfl :
    (policyIteration m (.infinite γ) initial (settings.capped rounds) sparse).runOn Journal.empty = (.ok part, _))
  have printable : (settings.verbose && settings.lineLength.isNone) = false := printable
  rw [answer_loop printable known] at ran
  rcases looped : loop m γ sparse first rounds with ⟨_ | q, j⟩
  · rw [looped] at ran
    cases ran
  · rw [looped] at ran
    cases ran
    exact ⟨printable, first, q, j, known, looped, rfl⟩

theorem answer_continues (ran : answer m γ initial settings sparse k = .ok part) (unstable : part.converged = false)
    (later : 0 < rounds) :
    (∃ e, answer m γ (some (.policy part.policy)) settings sparse rounds = .error e ∧
      answer m γ initial settings sparse (k + rounds) = .error e) ∨
    Resumed m γ initial settings sparse k rounds part := by
  obtain ⟨printable, first, q, j, known, looped, rfl⟩ := answer_ok ran
  obtain ⟨fuel, rfl⟩ := Nat.exists_eq_succ_of_ne_zero later.ne'
  have longer : loop m γ sparse first (k + (fuel + 1))
      = (iterate (improve m (.infinite γ) sparse) (fuel + 1) k q).runOn j := by
    rw [loop, iterate_add k (fuel + 1) looped unstable, Nat.zero_add]
  rw [Resumed, answer_loop printable known, longer]
  have restart := initialActions_stationary (m := m) q.actions
  change (∃ e, answer m γ (some (.policy (.stationary q.actions))) settings sparse (fuel + 1) = .error e ∧ _) ∨
    ∃ again whole, answer m γ (some (.policy (.stationary q.actions))) settings sparse (fuel + 1) = .ok again ∧ _
  cases valid : (Policy.stationary q.actions).validate m none with
  | error e =>
    rw [valid] at restart
    rw [iterate_failed (improve_invalid valid)]
    exact Or.inl ⟨e, answer_refused printable restart, rfl⟩
  | ok _ =>
    rw [valid] at restart
    rw [answer_loop printable restart]
    have ahead : Ahead k _ _ (loop m γ sparse q.actions (fuel + 1)) _ :=
      iterate_ahead k (fuel + 1) 0 ⟨#[], q.actions, 0, false⟩ (opened m γ sparse Journal.empty) j
    have same : (Progress.ahead k (⟨#[], q.actions, 0, false⟩ : Progress α)).actions = q.actions := rfl
    rw [opened_rows, Nat.add_zero, iterate_start same] at ahead
    generalize loop m γ sparse q.actions (fuel + 1) = short at ahead ⊢
    generalize (iterate (improve m (.infinite γ) sparse) (fuel + 1) k q).runOn j = long at ahead ⊢
    cases ahead with
    | failed => exact Or.inl ⟨_, rfl, rfl⟩
    | @ended _ short long _ written written' =>
      have rows : long.rows = j.rows ++ renumbered k short.rows := by
        rw [written', written]
        rfl
      exact Or.inr ⟨_, _, rfl, rfl, rfl, rfl, rfl, rfl, congrArg (Trace.mk stepName valueName) rows⟩

theorem answer_settles (ran : answer m γ initial settings sparse k = .ok part) (stable : part.converged = true)
    (later : 0 < rounds) : answer m γ (some (.policy part.policy)) settings sparse rounds
      = .ok { part with iterations := 1, trace := ⟨stepName, valueName, [(1, .whole 0)]⟩ } := by
  obtain ⟨printable, first, q, j, known, looped, rfl⟩ := answer_ok ran
  obtain ⟨fuel, rfl⟩ := Nat.exists_eq_succ_of_ne_zero later.ne'
  obtain ⟨last, round, unchanged⟩ := iterate_stable k rfl looped stable
  obtain ⟨valid, size, size'⟩ := improve_sizes round
  obtain rfl := (changedActions_eq_zero (size'.trans size.symm)).mp unchanged
  have restart := initialActions_stationary (m := m) q.actions
  rw [valid] at restart
  change answer m γ (some (.policy (.stationary q.actions))) settings sparse (fuel + 1) = _
  have only : loop m γ sparse q.actions (fuel + 1) = (.ok ⟨q.value, q.actions, 1, true⟩,
      (opened m γ sparse Journal.empty).push (.row 1 (.whole 0))) := by
    have round : improve m (.infinite γ) sparse (⟨#[], q.actions, 0, false⟩ : Progress α).actions = .ok _ := round
    rw [loop, iterate_opened round, unchanged]
    rfl
  rw [answer_loop printable restart, only]
  dsimp only
  rw [Journaled.rows_push_row, opened_rows, stable]
  rfl

theorem answer_returns (capped : 0 < k) (ran : answer m γ initial settings sparse k = .ok part) :
    (∃ result, answer m γ initial settings sparse rounds = .ok result) ↔ Evaluable m γ initial sparse rounds := by
  obtain ⟨printable, first, q, j, known, looped, -⟩ := answer_ok ran
  obtain ⟨fuel, rfl⟩ := Nat.exists_eq_succ_of_ne_zero capped.ne'
  rw [answer_loop printable known]
  rcases ended : loop m γ sparse first rounds with ⟨e | q', j'⟩
  · refine ⟨fun returned => ?_, fun evaluable => ?_⟩
    · obtain ⟨_, failed⟩ := returned
      cases failed
    · obtain ⟨i, within, actions, reached, failed⟩ := (iterate_error rounds 0 _ _).mp ⟨j', ended⟩
      obtain ⟨v, evaluated⟩ := evaluable first known i within actions reached
      cases opening : improve m (.infinite γ) sparse first with
      | error e' =>
        rw [loop, iterate_failed opening] at looped
        cases looped
      | ok found =>
        obtain ⟨_, again⟩ := improve_again opening evaluated
        cases failed.symm.trans again
  · refine ⟨fun _ first' known' i within actions reached => ?_, fun _ => ⟨_, rfl⟩⟩
    cases known.symm.trans known'
    cases round : improve m (.infinite γ) sparse actions with
    | error e =>
      obtain ⟨_, failed⟩ := (iterate_error rounds 0 ⟨#[], first, 0, false⟩ _).mpr ⟨i, within, actions, reached, round⟩
      cases ended.symm.trans failed
    | ok found => exact ⟨_, (improve_evaluates round).1⟩

-- A run that stops unstable after k rounds has used them up. From its policy a run of n rounds goes on to the result
-- that k + n rounds have at once, if all policies up to there can be evaluated; else both fail alike. From the policy
-- of a stable run there is one round, which changes nothing.
theorem resumed_run (capped : 0 < k) (ran : answer m γ initial settings sparse k = .ok part) :
    (part.converged = false → part.iterations = k ∧ part.trace.rows.length = k ∧ ∀ n, 0 < n →
      ((∃ e, answer m γ (some (.policy part.policy)) settings sparse n = .error e ∧
          answer m γ initial settings sparse (k + n) = .error e) ∨ Resumed m γ initial settings sparse k n part) ∧
      (Evaluable m γ initial sparse (k + n) ↔ Resumed m γ initial settings sparse k n part)) ∧
    (part.converged = true → ∀ n, 0 < n → answer m γ (some (.policy part.policy)) settings sparse n
      = .ok { part with iterations := 1, trace := ⟨stepName, valueName, [(1, .whole 0)]⟩ }) := by
  refine ⟨fun unstable => ?_, fun stable n later => answer_settles ran stable later⟩
  have continued (n : Nat) (later : 0 < n) : _ ∨ Resumed m γ initial settings sparse k n part :=
    answer_continues ran unstable later
  obtain ⟨_, first, q, j, _, looped, rfl⟩ := answer_ok ran
  obtain ⟨count, rows, written, length⟩ := iterate_unstable k looped rfl unstable
  refine ⟨count.trans (Nat.zero_add k), ?_, fun n later => ⟨continued n later, ?_⟩⟩
  · change j.rows.length = k
    rw [written, opened_rows]
    exact length
  · rw [← answer_returns capped ran]
    constructor
    · rintro ⟨whole, returned⟩
      rcases continued n later with ⟨e, _, failed⟩ | resumed
      · cases returned.symm.trans failed
      · exact resumed
    · rintro ⟨_, whole, _, returned, _⟩
      exact ⟨whole, returned⟩

end Runs

-- One round that changes an action and then one that changes none. The second one can be run apart, and repeated.
theorem resumed_run_leaving : ∃ part again,
    answer (.table Process.leaving.table) (.finite (1 / 2)) none (.quiet 10 1 0) false 1 = .ok part ∧
    part.converged = false ∧ Evaluable (.table Process.leaving.table) (.finite (1 / 2)) none false 4 ∧
    (∃ whole, answer (.table Process.leaving.table) (.finite (1 / 2)) none (.quiet 10 1 0) false 4 = .ok whole ∧
      Continues 1 part again whole) ∧
    answer (.table Process.leaving.table) (.finite (1 / 2)) (some (.policy again.policy)) (.quiet 10 1 0) false 7
      = .ok { again with iterations := 1, trace := ⟨stepName, valueName, [(1, .whole 0)]⟩ } := by
  have short : (policyIteration (.table Process.leaving.table) (.infinite (.finite (1 / 2))) none
      ((Settings.quiet 10 1 0).capped 1) false).returns Journal.empty (fun result => !result.converged) = true := by
    decide +kernel
  have long : (policyIteration (.table Process.leaving.table) (.infinite (.finite (1 / 2))) none
      ((Settings.quiet 10 1 0).capped 4) false).returns Journal.empty (fun result => result.converged) = true := by
    decide +kernel
  obtain ⟨part, _, ran, unstable⟩ := InPlace.runOn_of_returns short
  obtain ⟨last, _, returned, stable⟩ := InPlace.runOn_of_returns long
  have ran : answer _ _ none (.quiet 10 1 0) false 1 = .ok part := congrArg Prod.fst ran
  have returned : answer _ _ none (.quiet 10 1 0) false 4 = .ok last := congrArg Prod.fst returned
  have unstable : part.converged = false := by simpa using unstable
  obtain ⟨_, _, onward⟩ := (resumed_run Nat.one_pos ran).1 unstable
  obtain ⟨⟨e, _, failed⟩ | resumed, evaluable⟩ := onward 3 (by decide)
  · cases returned.symm.trans failed
  · have evaluable := evaluable.mpr resumed
    obtain ⟨again, whole, restarted, returned', continues⟩ := resumed
    cases returned.symm.trans returned'
    exact ⟨part, again, ran, unstable, evaluable, ⟨last, returned, continues⟩,
      (resumed_run (by decide) restarted).2 (continues.converged.trans stable) 7 (by decide)⟩

end PolicyIteration

end MarkovDecision
