import MarkovDecision.Proofs.ParallelSweeps
import MarkovDecision.Proofs.StoppingRule

namespace MarkovDecision

variable {α : Type} [Scalar α]

section Schedules

variable {m : Model α} {goal : Goal α} {v : Array α} {schedule : Schedule} {parts : List (List Nat)}

theorem Model.bellman_schedule (cut : (schedule.chunks m.stateCount : Outcome α _) = .ok parts) :
    m.bellman goal v schedule = m.bellman goal v .serial := by
  cases m with
  | flat f => rfl
  | table t =>
    have keeps := SweepBuffers.memory_keeps t.stateCount v
    have judged := keeps.judged (fun s => (Model.table t).greedyChoice goal (s : Nat)) (SweepBuffers.memory v).write
      fun s inside c x ready => keeps.write_runOn inside c ready
    have same := judged.runChunks_result (Schedule.chunks_flatten cut)
      (List.flatten_singleton (l := List.range t.stateCount)) (SweepBuffers.zeros_size t.stateCount)
    have cut : (schedule.chunks t.stateCount : Outcome α _) = .ok parts := cut
    rw [Model.bellman, Model.bellman, SweepMemory.bellmanSweep, SweepMemory.bellmanSweep, cut]
    exact same

theorem Model.followed_schedule {t : Int} {policy : Policy α}
    (cut : (schedule.chunks m.stateCount : Outcome α _) = .ok parts) :
    m.followed goal t v policy schedule = m.followed goal t v policy .serial := by
  have keeps := SweepBuffers.memory_keeps m.stateCount v
  have judged := keeps.judged (fun s => m.policyValue goal t (s : Nat) policy)
    (fun s y => InPlace.update ((SweepBuffers.memory v).putValue s y)) fun s inside y x ready =>
      ⟨InPlace.runOn_update (keeps.value s inside y x ready).1, (keeps.value s inside y x ready).2⟩
  have same := judged.runChunks_result (Schedule.chunks_flatten cut)
    (List.flatten_singleton (l := List.range m.stateCount)) (SweepBuffers.zeros_size m.stateCount)
  rw [Model.followed, Model.followed, SweepMemory.policySweep, SweepMemory.policySweep, cut]
  exact congrArg (· >>= _) same

end Schedules

namespace FixpointIteration

def Scheduled (m : Model α) (policy : Option (Policy α)) (settings : Settings α) : Prop :=
  ∃ parts, ((schedule m policy settings).chunks m.stateCount : Outcome α _) = .ok parts

theorem run_schedule {m : Model α} {o : Objective α} {discount : α} {policy : Option (Policy α)}
    {settings : Settings α} {parallel : Bool} {workers : Option Int} (cut : Scheduled m policy settings)
    (cut' : Scheduled m policy { settings with parallel, workers }) :
    run m o discount policy { settings with parallel, workers } = run m o discount policy settings := by
  obtain ⟨parts, cut⟩ := cut
  obtain ⟨parts', cut'⟩ := cut'
  have greedy (v : Array α) : m.bellman (.objective o) v (schedule m policy { settings with parallel, workers })
      = m.bellman (.objective o) v (schedule m policy settings) :=
    (Model.bellman_schedule cut').trans (Model.bellman_schedule cut).symm
  have steps : step m o policy (schedule m policy { settings with parallel, workers })
      = step m o policy (schedule m policy settings) := by
    funext v
    cases policy with
    | none => rw [step, step, greedy]
    | some p => exact (Model.followed_schedule cut').trans (Model.followed_schedule cut).symm
  simp only [run, steps, greedy]
  rfl

def stateStep (m : Model α) (o : Objective α) (discount : α) (policy : Option (Policy α)) (v : Array α) :
    Nat → InPlace (SweepBuffers α) α Unit :=
  match policy with
  | none => (SweepBuffers.memory v).choiceStep m (.objective o) discount
  | some p => (SweepBuffers.memory v).policyStep m (.objective o) 0 p

def Swept (m : Model α) (o : Objective α) (discount : α) (policy : Option (Policy α)) (v : Array α)
    (after : SweepBuffers α) : Prop :=
  ∃ (parts : List (List Nat)) (before : SweepBuffers α) (order : List Nat) (c : Crew (SweepBuffers α)),
    parts.flatten.Perm (List.range m.stateCount) ∧ before.HasSize m.stateCount ∧
    Crew.Runs (stateStep m o discount policy v) ⟨parts, before⟩ order c ∧ c.Finished ∧ c.memory = after

inductive Rounds (swept : Array α → Array α → Prop) (change : List α → α) (threshold : α) :
    Nat → Nat → Progress α → List (Nat × Quantity α) → Progress α → Prop
  | cap (done : Nat) (p : Progress α) : Rounds swept change threshold 0 done p [] p
  | last {fuel done : Nat} {p : Progress α} {v : Array α} {residual : α} (moved : swept p.value v)
      (changed : residual = change (List.zipWith (· - ·) v.toList p.value.toList))
      (passed : Scalar.le residual threshold = true) :
      Rounds swept change threshold (fuel + 1) done p [(done + 1, .real residual)] ⟨v, done + 1, residual, true⟩
  | more {fuel done : Nat} {p q : Progress α} {v : Array α} {residual : α} {rows : List (Nat × Quantity α)}
      (moved : swept p.value v) (changed : residual = change (List.zipWith (· - ·) v.toList p.value.toList))
      (refused : Scalar.le residual threshold = false)
      (later : Rounds swept change threshold fuel (done + 1) ⟨v, done + 1, residual, false⟩ rows q) :
      Rounds swept change threshold (fuel + 1) done p ((done + 1, .real residual) :: rows) q

def Interleaved (m : Model α) (o : Objective α) (discount : α) (policy : Option (Policy α)) (settings : Settings α)
    (result : ValueIterationResult α) : Prop :=
  ∃ limit p rows greedy, threshold settings discount = .ok limit ∧
    Rounds (fun v v' => ∃ after, Swept m o discount policy v after ∧ v' = after.values)
      (changeOf settings.stopRule) limit settings.iterations 0 (start m) rows p ∧
    (match policy with
      | none => ∃ after, Swept m o discount none p.value after ∧ greedy = some (Policy.stationary after.actions)
      | some _ => greedy = none) ∧
    result = {
      value := .stationary p.value
      policy := greedy
      iterations := p.iterations
      residual := some p.residual
      converged := p.converged
      trace := ⟨stepName, valueName, rows⟩ }

theorem Rounds.iterate {swept : Array α → Array α → Prop} {next : Array α → Outcome α (Array α)} {change : List α → α}
    {threshold : α} {good : Array α → Prop} (same : ∀ v v', good v → swept v v' → next v = .ok v' ∧ good v')
    {fuel done : Nat} {p q : Progress α} {rows : List (Nat × Quantity α)}
    (rounds : Rounds swept change threshold fuel done p rows q) (ready : good p.value) (j : Journal α) :
    good q.value ∧ ∃ j', (FixpointIteration.iterate next change threshold fuel done p).runOn j = (.ok q, j') ∧
      j'.rows = j.rows ++ rows := by
  induction rounds generalizing j with
  | cap done p => exact ⟨ready, j, rfl, (List.append_nil _).symm⟩
  | @last fuel done p v residual moved changed passed =>
    obtain ⟨known, after⟩ := same _ _ ready moved
    refine ⟨after, _, ?_, Journaled.rows_push_row j _ _⟩
    rw [iterate_swept known changed, if_pos passed]
  | @more fuel done p q v residual rows moved changed refused later ih =>
    obtain ⟨known, after⟩ := same _ _ ready moved
    obtain ⟨final, j', looped, noted⟩ := ih after (j.push (.row (done + 1) (.real residual)))
    refine ⟨final, j', ?_, ?_⟩
    · rw [iterate_swept known changed, if_neg (by simp [refused])]
      exact looped
    · rw [noted, Journaled.rows_push_row, List.append_assoc]
      rfl

section Runs

variable {m : Model α} (listed : m.Listed) {discount : α}

include listed

-- An interleaved sweep leaves the values and actions that are written chunk by chunk.
theorem Swept.bellman (acts : ∀ s < m.stateCount, m.actionCount (s : Nat) ≠ .ok 0) (columnar : m.Columnar) {v : Array α}
    (room : v.size = m.stateCount) {after : SweepBuffers α} (swept : Swept m (.infinite discount) discount none v after)
    {schedule : Schedule} {parts : List (List Nat)} (cut : (schedule.chunks m.stateCount : Outcome α _) = .ok parts) :
    m.bellman (.objective (.infinite discount)) v schedule = .ok after ∧ after.values.size = m.stateCount := by
  obtain ⟨workers, before, order, c, cover, size, ran, finished, rfl⟩ := swept
  have known : (Goal.objective (.infinite discount)).discount = .ok discount := rfl
  have keeps := SweepBuffers.memory_keeps m.stateCount v
  obtain ⟨choice, chosen, steps⟩ := keeps.choiceStep_runOn listed acts columnar known room.ge
  have agrees := Crew.agrees cover steps (fun s _ t _ other b => by
    rw [Array.setIfInBounds_comm _ _ other, Array.setIfInBounds_comm _ _ other]) (fun _ _ => (trivial : True)) size
  have written := SweepBuffers.writes_apart (fun s => (choice s).1) (fun s => (choice s).2)
    (List.range m.stateCount) before
  rw [writes_all _ size.1, writes_all _ size.2] at written
  have memory := (agrees.same order c ran finished).2.trans written
  rw [memory]
  refine ⟨Model.bellman_ok known cut (Model.columns_choice listed acts columnar known _) _ _ chosen, Array.size_ofFn⟩

theorem Swept.followed {p : Policy α} (plays : p.Plays m 0) {v : Array α} (room : v.size = m.stateCount)
    {after : SweepBuffers α} (swept : Swept m (.infinite discount) discount (some p) v after) {schedule : Schedule}
    {parts : List (List Nat)} (cut : (schedule.chunks m.stateCount : Outcome α _) = .ok parts) :
    m.followed (.objective (.infinite discount)) 0 v p schedule = .ok after.values ∧
      after.values.size = m.stateCount := by
  obtain ⟨workers, before, order, c, cover, size, ran, finished, rfl⟩ := swept
  have known : (Goal.objective (.infinite discount)).discount = .ok discount := rfl
  have keeps := SweepBuffers.memory_keeps m.stateCount v
  obtain ⟨value, followed, steps⟩ := keeps.policyStep_runOn listed known room.ge plays
  have agrees := Crew.agrees cover steps (fun s _ t _ other b => by
    rw [Array.setIfInBounds_comm _ _ other]) (fun _ _ => (trivial : True)) size
  have memory : c.memory.values = Array.ofFn fun s : Fin m.stateCount => value s := by
    rw [(agrees.same order c ran finished).2, SweepBuffers.writes_values, writes_all _ size.1]
  rw [memory]
  exact ⟨Model.followed_ok cut value followed, Array.size_ofFn⟩

theorem run_interleaved (acts : ∀ s < m.stateCount, m.actionCount (s : Nat) ≠ .ok 0) (columnar : m.Columnar)
    {policy : Option (Policy α)} (plays : ∀ p ∈ policy, p.Plays m 0) {settings : Settings α}
    (cut : Scheduled m policy settings) {result : ValueIterationResult α} {j : Journal α}
    (ran : (run m (.infinite discount) discount policy settings).runOn Journal.empty = (.ok result, j))
    {other : ValueIterationResult α} (interleaved : Interleaved m (.infinite discount) discount policy settings other) :
    other = result := by
  obtain ⟨parts, cut⟩ := cut
  obtain ⟨limit, p, k, k', greedy, made, blank, looped, chosen, rfl⟩ := run_result ran
  obtain ⟨limit', q, rows, greedy', made', rounds, chosen', rfl⟩ := interleaved
  obtain rfl := Except.ok.inj (made.symm.trans made')
  have same : ∀ v v', v.size = m.stateCount →
      (∃ after, Swept m (.infinite discount) discount policy v after ∧ v' = after.values) →
      step m (.infinite discount) policy (schedule m policy settings) v = .ok v' ∧ v'.size = m.stateCount := by
    rintro v _ room ⟨after, swept, rfl⟩
    cases policy with
    | none =>
      obtain ⟨known, size⟩ := swept.bellman listed acts columnar room cut
      rw [step, known]
      exact ⟨rfl, size⟩
    | some p => exact swept.followed listed (plays p rfl) room cut
  obtain ⟨size, l, looped', noted⟩ := rounds.iterate same Array.size_replicate k
  rw [looped] at looped'
  cases looped'
  have chosen : greedy' = greedy := by
    cases policy with
    | none =>
      obtain ⟨after, swept, rfl⟩ := chosen'
      rw [(swept.bellman listed acts columnar size cut).1] at chosen
      exact Except.ok.inj chosen
    | some p => exact chosen'.trans (Except.ok.inj chosen)
  rw [chosen, noted, blank]
  rfl

end Runs

end FixpointIteration

theorem valueIteration_schedule {m : Model α} {discount : α} {given : Option (PolicyData α)}
    {terminal : Option (TerminalValue α)} {settings : Settings α} {parallel : Bool} {workers : Option Int}
    (cut : ∀ p, p.isSome = given.isSome → FixpointIteration.Scheduled m p settings)
    (cut' : ∀ p, p.isSome = given.isSome → FixpointIteration.Scheduled m p { settings with parallel, workers }) :
    valueIteration m (.infinite discount) given terminal { settings with parallel, workers }
      = valueIteration m (.infinite discount) given terminal settings := by
  have kind {check : PolicyData α → Outcome α (Policy α)} {p : Option (Policy α)} (read : given.mapM check = .ok p) :
      p.isSome = given.isSome := by
    cases given with
    | none =>
      cases read
      rfl
    | some g =>
      obtain ⟨q, _, same⟩ := Outcome.bind_ok.mp read
      cases same
      rfl
  have same : infiniteValueIteration m (.infinite discount) discount given { settings with parallel, workers }
      = infiniteValueIteration m (.infinite discount) discount given settings :=
    InPlace.lift_bind_congr fun p read => FixpointIteration.run_schedule (cut p (kind read)) (cut' p (kind read))
  rw [valueIteration, valueIteration]
  dsimp only
  rw [same]

-- Where all states have actions, and actions lead to states, a sweep comes to the same for every list of chunks
-- that can be set aside and every order in which the workers take their steps: each state is handled once, and
-- what is left is what the serial sweep leaves. A list that cannot be set aside is refused before any step. So
-- value iteration does not depend on the division of the work, nor on the order of its steps.
theorem sweeps_interleave {m : Model α} (listed : m.Listed) (acts : ∀ s < m.stateCount, m.actionCount (s : Nat) ≠ .ok 0)
    (columnar : m.Columnar) :
    (∀ goal discount, goal.discount = .ok discount → ∀ (start : Storage α) (values outValues outActions : View),
      start.Lanes m.stateCount values outValues outActions →
      Crew.Settles m.stateCount (fun schedule => Storage.bellmanSweep m goal schedule values outValues outActions)
        (Storage.choiceStep start m goal discount values outValues outActions) start
        (fun x => x.read values = start.read values) ∧
      ∀ (policy : Policy α) (t : Int), policy.Plays m t →
        Crew.Settles m.stateCount (fun schedule => Storage.policySweep m goal t policy schedule values outValues)
          (Storage.policyStep m goal t policy values outValues) start fun x => x.read values = start.read values) ∧
    (∀ (schedule : Schedule) e, (schedule.chunks m.stateCount : Outcome α (List (List Nat))) = .error e →
      ∀ goal t policy (start : Storage α) values outValues outActions,
        (∀ table, m = .table table →
          (Storage.bellmanSweep m goal schedule values outValues outActions).runOn start = (.error e, start)) ∧
        (Storage.policySweep m goal t policy schedule values outValues).runOn start = (.error e, start)) ∧
    (∀ discount (given : Option (PolicyData α)) (terminal : Option (TerminalValue α)) (settings : Settings α)
      (parallel : Bool) (workers : Option Int),
      (∀ p, p.isSome = given.isSome → FixpointIteration.Scheduled m p settings) →
      (∀ p, p.isSome = given.isSome → FixpointIteration.Scheduled m p { settings with parallel, workers }) →
      valueIteration m (.infinite discount) given terminal { settings with parallel, workers }
        = valueIteration m (.infinite discount) given terminal settings) ∧
    ∀ discount (policy : Option (Policy α)) (settings : Settings α), (∀ p ∈ policy, p.Plays m 0) →
      FixpointIteration.Scheduled m policy settings → ∀ result j,
      (FixpointIteration.run m (.infinite discount) discount policy settings).runOn Journal.empty = (.ok result, j) →
      ∀ other, FixpointIteration.Interleaved m (.infinite discount) discount policy settings other →
        other = result := by
  refine ⟨fun goal discount known start values outValues outActions lanes =>
      ⟨lanes.bellmanSweep_settles listed known acts columnar, fun policy t plays =>
        lanes.policySweep_settles listed known plays⟩,
    fun schedule e refused goal t policy start values outValues outActions => ⟨?_, ?_⟩,
    fun discount given terminal settings parallel workers => valueIteration_schedule,
    fun discount policy settings plays cut result j ran other interleaved =>
      FixpointIteration.run_interleaved listed acts columnar plays cut ran interleaved⟩
  · rintro table rfl
    exact congrArg (fun chunks => (InPlace.lift chunks >>= _ : InPlace (Storage α) α Unit).runOn start) refused
  · exact congrArg (fun chunks => (InPlace.lift chunks >>= _ : InPlace (Storage α) α Unit).runOn start) refused

section Instances

def Storage.fresh : Storage (Extended ℚ) :=
  ⟨#[.reals #[.finite 0, .finite 0], .reals #[.nan, .nan], .wholes #[0, 0]]⟩

def View.pair (buffer : Nat) : View := ⟨buffer, 0, [2]⟩

theorem Storage.fresh_lanes : Storage.fresh.Lanes 2 (View.pair 0) (View.pair 1) (View.pair 2) where
  shape := rfl
  inside := rfl
  roomValues := ⟨2, rfl, Nat.le_refl 2⟩
  roomActions := ⟨2, rfl, Nat.le_refl 2⟩
  real := rfl
  apartValues := fun same => absurd same (by decide)
  apartActions := fun same => absurd same (by decide)
  separate := fun same => absurd same (by decide)

theorem two_chunks : ((Schedule.chunked 2 1000).chunks 2 : Outcome (Extended ℚ) _) = .ok [[0], [1]] := rfl

theorem sweeps_interleave_leaving :
    (∃ last, (Storage.bellmanSweep (.table Process.leaving.table) (.objective (.infinite (.finite (1 / 2))))
        (.chunked 2 1000) (View.pair 0) (View.pair 1) (View.pair 2)).runOn Storage.fresh = (.ok (), last) ∧
      ∀ order c, Crew.Runs (Storage.choiceStep Storage.fresh (.table Process.leaving.table)
          (.objective (.infinite (.finite (1 / 2)))) (.finite (1 / 2)) (View.pair 0) (View.pair 1) (View.pair 2))
          ⟨[[0], [1]], Storage.fresh⟩ order c → c.Finished → order.Perm [0, 1] ∧ c.memory = last) ∧
    valueIteration (.table Process.leaving.table) (.infinite (.finite (1 / 2))) none none
        { Settings.quiet 10 1 (0 : ℚ) with parallel := true, workers := some 2 }
      = valueIteration (.table Process.leaving.table) (.infinite (.finite (1 / 2))) none none
        (Settings.quiet 10 1 0) := by
  have described := table_describes Process.leaving
  obtain ⟨sweeps, _, runs, _⟩ := sweeps_interleave described.listed described.acts trivial
  constructor
  · obtain ⟨⟨last, swept, agrees⟩, _⟩ := sweeps (.objective (.infinite (.finite (1 / 2)))) (.finite (1 / 2)) rfl
      Storage.fresh _ _ _ Storage.fresh_lanes
    exact ⟨last, (swept (.chunked 2 1000) _ two_chunks).2, (agrees [[0], [1]] (List.Perm.refl _)).same⟩
  · refine runs (.finite (1 / 2)) none none (Settings.quiet 10 1 0) true (some 2) (fun p none => ?_) fun p none => ?_
    · cases p with
      | none => exact ⟨_, rfl⟩
      | some p => cases none
    · cases p with
      | none => exact ⟨_, two_chunks⟩
      | some p => cases none

-- So many chunks cannot be set aside anywhere, and then no state is handled.
theorem chunks_refused : (∀ capacity, (Storage.bellmanSweep (.table Process.leaving.table)
      (.objective (.infinite (.finite (1 / 2)))) (.chunked (10 ^ 30) capacity) (View.pair 0) (View.pair 1)
      (View.pair 2)).runOn Storage.fresh = (.error .invalidInput, Storage.fresh)) ∧
    ∃ last, (Storage.bellmanSweep (.table Process.leaving.table) (.objective (.infinite (.finite (1 / 2)))) .serial
      (View.pair 0) (View.pair 1) (View.pair 2)).runOn Storage.fresh = (.ok (), last) := by
  have described := table_describes Process.leaving
  constructor
  · intro capacity
    have crowded : Tensor.fits capacity [10 ^ 30] = false := Bool.and_false _
    have refused : ((Schedule.chunked (10 ^ 30) capacity).chunks 2 : Outcome (Extended ℚ) _) = .error .invalidInput :=
      if_neg (Bool.eq_false_iff.mp crowded)
    exact congrArg (fun chunks => (InPlace.lift chunks >>= _ :
      InPlace (Storage (Extended ℚ)) (Extended ℚ) Unit).runOn Storage.fresh) refused
  · have known : (Goal.objective (.infinite (.finite (1 / 2)))).discount = .ok (.finite (1 / 2) : Extended ℚ) := rfl
    obtain ⟨last, swept, _⟩ := Storage.fresh_lanes.bellmanSweep_settles described.listed known described.acts trivial
    exact ⟨last, (swept .serial _ rfl).2⟩

end Instances

end MarkovDecision
