import MarkovDecision.Proofs.StageRows
import MarkovDecision.Proofs.StageSweeps

namespace MarkovDecision

section Runs

variable {α σ : Type} {step : Nat → InPlace σ α Unit}

theorem runChunks_single (states : List Nat) (x : σ) :
    (runChunks step [states]).runOn x = (states.forM step).runOn x := by
  rw [runChunks, InPlace.runOn_bind, List.mapM_cons, InPlace.runOn_bind, InPlace.attempt_runOn]
  rcases (states.forM step).runOn x with ⟨_ | _, y⟩ <;> rfl

theorem forM_concat (states : List Nat) (s : Nat) (x : σ) :
    ((states ++ [s]).forM step).runOn x = (states.forM step >>= fun _ => step s).runOn x := by
  induction states generalizing x with
  | nil =>
    change (step s >>= fun _ => pure PUnit.unit : InPlace σ α Unit).runOn x = (step s).runOn x
    rw [InPlace.runOn_bind]
    rcases (step s).runOn x with ⟨_ | _, y⟩ <;> rfl
  | cons first rest ih =>
    change (step first >>= fun _ => (rest ++ [s]).forM step).runOn x
      = ((step first >>= fun _ => rest.forM step) >>= fun _ => step s).runOn x
    rw [InPlace.runOn_bind, InPlace.runOn_bind (step first >>= _), InPlace.runOn_bind (step first)]
    rcases (step first).runOn x with ⟨_ | _, y⟩
    · rfl
    · exact (ih y).trans (InPlace.runOn_bind ..)

variable {Reached : Nat → σ → Prop} {Stops : Nat → σ → Failure α → Prop} {n : Nat}

theorem forM_reaches
    (advance : ∀ s < n, ∀ x, Reached s x → (∃ y, (step s).runOn x = (.ok (), y) ∧ Reached (s + 1) y) ∨
      ∃ e, (step s).runOn x = (.error e, x) ∧ Stops s x e) {x : σ} (ready : Reached 0 x) :
    (∃ y, ((List.range n).forM step).runOn x = (.ok (), y) ∧ Reached n y) ∨
      ∃ s < n, ∃ y e, ((List.range n).forM step).runOn x = (.error e, y) ∧ Reached s y ∧ Stops s y e := by
  induction n with
  | zero => exact Or.inl ⟨x, rfl, ready⟩
  | succ n ih =>
    rw [List.range_succ]
    simp only [forM_concat]
    rw [InPlace.runOn_bind]
    rcases ih fun s below => advance s (Nat.lt_succ_of_lt below) with ⟨y, ran, reached⟩ | ⟨s, below, y, e, ran, stopped⟩
    · rw [ran]
      rcases advance n (Nat.lt_succ_self n) y reached with ⟨z, last, arrived⟩ | ⟨e, last, stops⟩
      · exact Or.inl ⟨z, last, arrived⟩
      · exact Or.inr ⟨n, Nat.lt_succ_self n, y, e, last, reached, stops⟩
    · rw [ran]
      exact Or.inr ⟨s, Nat.lt_succ_of_lt below, y, e, rfl, stopped⟩

end Runs

def BackwardInduction.decision {α : Type} [Scalar α] (m : Model α) (o : Objective α) (rule : Option (Policy α))
    (t s : Nat) (v : Reader α) : Outcome α (α × Option Int) :=
  match rule with
  | none => (m.greedyChoice (.objective o) s v).map fun choice => (choice.1, some choice.2)
  | some q => (m.policyValue (.objective o) t s (q.atStage t) v).map fun value => (value, none)

namespace Storage

variable {α : Type} [Scalar α] {found : Nat → Nat → Reader α → Outcome α (α × Option Int)} {horizon n t s : Nat}
  {v p : View} {last : Array α} {before now : Storage α} {c : α × Option Int} {optimise : Bool}

-- Backward induction has come to a state of a stage. The terminal values are there. What was found for the states
-- before it and at the later stages has been written, and it was found from the row that is there now. Everything
-- else is as it was.
structure Reached (found : Nat → Nat → Reader α → Outcome α (α × Option Int)) (horizon n : Nat) (v p : View)
    (last : Array α) (before : Storage α) (t s : Nat) (now : Storage α) : Prop where
  terminal : ∀ i < n, (now.valueRow v horizon)[i]? = last[i]?.or (before.valueRow v horizon)[i]?
  done : ∀ k < horizon, ∀ i < n, t < k ∨ k = t ∧ i < s →
    ∃ c, found k i (Reader.ofArray (now.valueRow v (k + 1))) = .ok c ∧ (now.valueRow v k)[i]? = some c.1 ∧
      (now.actionRow p k)[i]? = c.2.or (before.actionRow p k)[i]?
  rest : ∀ k < horizon, ∀ i < n, k < t ∨ k = t ∧ s ≤ i →
    (now.valueRow v k)[i]? = (before.valueRow v k)[i]? ∧ (now.actionRow p k)[i]? = (before.actionRow p k)[i]?

theorem Reached.stage_before (reached : Reached found horizon n v p last before (t + 1) n now) :
    Reached found horizon n v p last before t 0 now where
  terminal := reached.terminal
  done k below i inside after := reached.done k below i inside (by omega)
  rest k below i inside ahead := reached.rest k below i inside (by omega)

-- Writing what was found for a state leads to the next one. The row that it was found from is not written any more.
theorem Reached.next_state (reached : Reached found horizon n v p last before t s now)
    (fits : now.Fits horizon n v p c.2.isSome) (stage : t < horizon) (state : s < n)
    (known : found t s (Reader.ofArray (now.valueRow v (t + 1))) = .ok c) :
    Reached found horizon n v p last before t (s + 1) (now.putFound v p t s c) := by
  have elsewhere {k i : Nat} (inside : k ≤ horizon) (other : ¬(k = t ∧ i = s)) :
      ((now.putFound v p t s c).valueRow v k)[i]? = (now.valueRow v k)[i]? := by
    rw [fits.valueRow_found stage state inside]
    by_cases row : k = t
    · rw [if_pos row, Array.getElem?_setIfInBounds, if_neg fun cell => other ⟨row, cell.symm⟩]
    · rw [if_neg row]
  have later {k : Nat} (inside : k ≤ horizon) (after : k ≠ t) :
      (now.putFound v p t s c).valueRow v k = now.valueRow v k := by
    rw [fits.valueRow_found stage state inside, if_neg after]
  refine ⟨fun i inside => ?_, fun k below i inside position => ?_, fun k below i inside position => ?_⟩
  · rw [later le_rfl stage.ne']
    exact reached.terminal i inside
  · rw [later (Nat.succ_le_of_lt below) (by omega), fits.actionRow_found stage state below]
    by_cases here : k = t ∧ i = s
    · obtain ⟨rfl, rfl⟩ := here
      refine ⟨c, known, ?_, ?_⟩
      · have size := fits.values k below.le
        rw [fits.valueRow_found stage state below.le, if_pos rfl, Array.getElem?_setIfInBounds, if_pos rfl,
          if_pos (by omega)]
      · rw [if_pos ⟨rfl, rfl⟩, (reached.rest k below i inside (Or.inr ⟨rfl, le_rfl⟩)).2]
    · rw [if_neg here, elsewhere below.le here]
      exact reached.done k below i inside (by omega)
  · rw [elsewhere below.le (by omega), fits.actionRow_found stage state below, if_neg (by omega)]
    exact reached.rest k below i inside (by omega)

theorem Fits.reached_end (fits : before.Fits horizon n v p optimise) (last : Array α) :
    Reached found horizon n v p last before horizon n (before.fill (rowOf v horizon) last.toList) := by
  obtain ⟨_, placed, others⟩ := fits.fill last.toList
  refine ⟨fun i inside => ?_, fun k below i inside after => by omega, fun k below i inside _ => ?_⟩
  · rw [placed i inside, Array.getElem?_toList]
  · obtain ⟨values, actions⟩ := others k below
    rw [values, actions]
    exact ⟨rfl, rfl⟩

structure Stopped (found : Nat → Nat → Reader α → Outcome α (α × Option Int)) (horizon n : Nat) (v p : View)
    (last : Array α) (before : Storage α) (t s : Nat) (e : Failure α) (now : Storage α) : Prop where
  stage : t < horizon
  state : s < n
  reached : Reached found horizon n v p last before t s now
  failed : found t s (Reader.ofArray (now.valueRow v (t + 1))) = .error e

-- All stages have been filled, or the first failure was where filling them stopped.
inductive Filled (found : Nat → Nat → Reader α → Outcome α (α × Option Int)) (horizon n : Nat) (v p : View)
    (last : Array α) (before : Storage α) : Outcome α Unit → Storage α → Prop
  | finished {now : Storage α} (reached : Reached found horizon n v p last before 0 n now) :
      Filled found horizon n v p last before (.ok ()) now
  | interrupted {t s : Nat} {e : Failure α} {now : Storage α}
      (stopped : Stopped found horizon n v p last before t s e now) :
      Filled found horizon n v p last before (.error e) now

theorem states_reach {step : Nat → InPlace (Storage α) α Unit}
    (chosen : ∀ t s r c, found t s r = .ok c → c.2.isSome = optimise) (stage : t < horizon)
    (steps : ∀ s < n, ∀ x : Storage α, x.Fits horizon n v p optimise → (step s).runOn x
      = match found t s (Reader.ofArray (x.valueRow v (t + 1))) with
        | .ok c => (.ok (), x.putFound v p t s c)
        | .error e => (.error e, x))
    (reached : Reached found horizon n v p last before t 0 now) (fits : now.Fits horizon n v p optimise) :
    (∃ y, ((List.range n).forM step).runOn now = (.ok (), y) ∧ Reached found horizon n v p last before t n y ∧
      y.Fits horizon n v p optimise) ∨
    ∃ s y e, ((List.range n).forM step).runOn now = (.error e, y) ∧
      Stopped found horizon n v p last before t s e y := by
  have advance : ∀ s < n, ∀ x : Storage α,
      Reached found horizon n v p last before t s x ∧ x.Fits horizon n v p optimise →
      (∃ y, (step s).runOn x = (.ok (), y) ∧ Reached found horizon n v p last before t (s + 1) y ∧
        y.Fits horizon n v p optimise) ∨
      ∃ e, (step s).runOn x = (.error e, x) ∧ found t s (Reader.ofArray (x.valueRow v (t + 1))) = .error e := by
    rintro s state x ⟨here, room⟩
    have ran := steps s state x room
    cases known : found t s (Reader.ofArray (x.valueRow v (t + 1))) with
    | ok c =>
      rw [known] at ran
      rw [← chosen t s _ c known] at room ⊢
      exact Or.inl ⟨_, ran, here.next_state room stage state known, room.putFound stage state⟩
    | error e =>
      rw [known] at ran
      exact Or.inr ⟨e, ran, rfl⟩
  rcases forM_reaches advance ⟨reached, fits⟩ with arrived | ⟨s, state, y, e, ran, ⟨here, _⟩, failed⟩
  · exact Or.inl arrived
  · exact Or.inr ⟨s, y, e, ran, stage, state, here, failed⟩

theorem Reached.row_room (reached : Reached found horizon n v p last before t s now)
    (fits : before.Fits horizon n v p optimise) {k : Nat} (later : t < k) (inside : k ≤ horizon) :
    n ≤ (now.valueRow v k).size := by
  by_contra short
  have none : (now.valueRow v k)[(now.valueRow v k).size]? = none := Array.getElem?_eq_none le_rfl
  rcases Nat.lt_or_eq_of_le inside with below | rfl
  · obtain ⟨c, _, stored, _⟩ := reached.done k below _ (not_le.mp short) (Or.inl later)
    cases stored.symm.trans none
  · have stored := reached.terminal _ (not_le.mp short)
    have wide := fits.values k le_rfl
    rw [none, Array.getElem?_eq_getElem (by omega : (now.valueRow v k).size < (before.valueRow v k).size)] at stored
    cases found : last[(now.valueRow v k).size]? with
    | none =>
      rw [found] at stored
      cases stored
    | some x =>
      rw [found] at stored
      cases stored

section Steps

variable {model : Table α} {o : Objective α} {e : Failure α}

theorem bellmanStep_found (fits : now.Fits horizon model.stateCount v p true) (stage : t < horizon)
    (state : s < model.stateCount) :
    ((checkedMemory (rowOf v (t + 1)) (rowOf v t) (rowOf p t)).bellmanStep model (.objective o) s).runOn now
      = match BackwardInduction.decision (.table model) o none t s (Reader.ofArray (now.valueRow v (t + 1))) with
        | .ok c => (.ok (), now.putFound v p t s c)
        | .error e => (.error e, now) := by
  have keeps := fits.stage_keeps (.table model) stage
  have ready := fits.reads stage
  rw [BackwardInduction.decision]
  cases known : (Model.table model).greedyChoice (.objective o) s (Reader.ofArray (now.valueRow v (t + 1))) with
  | ok choice => exact (keeps.choose_runOn state ready known).1
  | error e =>
    have read := fits.stage_value (.table model) stage
    change (checkedMemory (rowOf v (t + 1)) (rowOf v t) (rowOf p t)).value now = _ at read
    rw [SweepMemory.bellmanStep, InPlace.runOn_bind_ok (InPlace.runOn_get now), InPlace.runOn_bind, InPlace.runOn_lift,
      read, known]
    rfl

theorem policyStep_found {q : Policy α} (fits : now.Fits horizon model.stateCount v p false) (stage : t < horizon)
    (state : s < model.stateCount) :
    ((checkedMemory (rowOf v (t + 1)) (rowOf v t) (rowOf p t)).policyStep (.table model) (.objective o) t (q.atStage t)
        s).runOn now
      = match BackwardInduction.decision (.table model) o (some q) t s (Reader.ofArray (now.valueRow v (t + 1))) with
        | .ok c => (.ok (), now.putFound v p t s c)
        | .error e => (.error e, now) := by
  have read := fits.stage_value (.table model) stage
  change (checkedMemory (rowOf v (t + 1)) (rowOf v t) (rowOf p t)).value now = _ at read
  rw [BackwardInduction.decision, SweepMemory.policyStep, InPlace.runOn_bind_ok (InPlace.runOn_get now),
    InPlace.runOn_bind, InPlace.runOn_lift, read]
  cases known : (Model.table model).policyValue (.objective o) t s (q.atStage t)
      (Reader.ofArray (now.valueRow v (t + 1))) with
  | ok value => exact fits.stage_follows (.table model) stage state value
  | error e => rfl

theorem decision_action {rule : Option (Policy α)} {r : Reader α}
    (known : BackwardInduction.decision (.table model) o rule t s r = .ok c) : c.2.isSome = rule.isNone := by
  cases rule with
  | none =>
    obtain ⟨_, _, rfl⟩ := Outcome.map_eq_ok.mp known
    rfl
  | some q =>
    obtain ⟨_, _, rfl⟩ := Outcome.map_eq_ok.mp known
    rfl

theorem sweep_reaches {rule : Option (Policy α)}
    (valid : ∀ q, rule = some q → q.validate (.table model) (some (.int horizon)) = .ok ()) (stage : t < horizon)
    (reached : Reached (BackwardInduction.decision (.table model) o rule) horizon model.stateCount v p last before t 0
      now)
    (fits : now.Fits horizon model.stateCount v p rule.isNone) :
    (∃ y, (BackwardInduction.sweep (stageMemory (.table model) rule.isNone horizon v p) (.table model) o rule
        t).runOn now = (.ok (), y) ∧
      Reached (BackwardInduction.decision (.table model) o rule) horizon model.stateCount v p last before t
        model.stateCount y ∧ y.Fits horizon model.stateCount v p rule.isNone) ∨
    ∃ s y e, (BackwardInduction.sweep (stageMemory (.table model) rule.isNone horizon v p) (.table model) o rule
        t).runOn now = (.error e, y) ∧
      Stopped (BackwardInduction.decision (.table model) o rule) horizon model.stateCount v p last before t s e y := by
  have cut : (InPlace.lift (Schedule.serial.chunks model.stateCount) : InPlace (Storage α) α _).runOn now
      = (.ok [List.range model.stateCount], now) := rfl
  cases rule with
  | none =>
    have ran : (BackwardInduction.sweep (stageMemory (.table model) true horizon v p) (.table model) o none t).runOn now
        = ((List.range model.stateCount).forM ((checkedMemory (rowOf v (t + 1)) (rowOf v t) (rowOf p t)).bellmanStep
          model (.objective o))).runOn now :=
      (InPlace.runOn_bind_ok cut).trans (runChunks_single _ now)
    rw [Option.isNone_none, ran]
    exact states_reach (fun _ _ _ _ known => decision_action known) stage
      (fun s state x room => bellmanStep_found room stage state) reached fits
  | some q =>
    have known : (InPlace.lift (if q.isStationary then .ok q else q.stage t) : InPlace (Storage α) α _).runOn now
        = (.ok (q.atStage t), now) := by
      rw [Policy.atStage_known (valid q rfl) stage]
      rfl
    have ran : (BackwardInduction.sweep (stageMemory (.table model) false horizon v p) (.table model) o (some q)
        t).runOn now = ((List.range model.stateCount).forM ((checkedMemory (rowOf v (t + 1)) (rowOf v t)
          (rowOf p t)).policyStep (.table model) (.objective o) t (q.atStage t))).runOn now :=
      (InPlace.runOn_bind_ok known).trans <| (InPlace.runOn_bind_ok cut).trans (runChunks_single _ now)
    rw [Option.isNone_some, ran]
    exact states_reach (fun _ _ _ _ known => decision_action known) stage
      (fun s state x room => policyStep_found room stage state) reached fits

theorem stages_reach {rule : Option (Policy α)}
    (valid : ∀ q, rule = some q → q.validate (.table model) (some (.int horizon)) = .ok ()) :
    ∀ t ≤ horizon, ∀ w : Workspace (Storage α) α,
    Reached (BackwardInduction.decision (.table model) o rule) horizon model.stateCount v p last before t
      model.stateCount w.memory →
    w.memory.Fits horizon model.stateCount v p rule.isNone →
    ∃ outcome w', (BackwardInduction.stages (stageMemory (.table model) rule.isNone horizon v p) (.table model) o rule
        t).runOn w = (outcome, w') ∧
      Filled (BackwardInduction.decision (.table model) o rule) horizon model.stateCount v p last before outcome
        w'.memory := by
  intro t
  induction t with
  | zero => exact fun _ w reached _ => ⟨.ok (), w, rfl, .finished reached⟩
  | succ t ih =>
    intro within w reached fits
    have swept (c : InPlace (Storage α) α Unit) : (Workspace.onMemory c).runOn w
        = ((c.runOn w.memory).1, { w with memory := (c.runOn w.memory).2 }) := rfl
    rw [BackwardInduction.stages, InPlace.runOn_bind, swept]
    rcases sweep_reaches valid within reached.stage_before fits with ⟨y, ran, arrived, room⟩ | ⟨s, y, e, ran, stopped⟩
    · rw [ran]
      dsimp only
      rw [InPlace.runOn_bind_ok (InPlace.runOn_get _)]
      exact ih (Nat.le_of_succ_le within) ⟨y, _⟩ arrived room
    · rw [ran]
      exact ⟨.error e, _, rfl, .interrupted stopped⟩

end Steps

theorem run_fills {model : Table α} {o : Objective α} {rule : Option (Policy α)}
    (valid : ∀ q, rule = some q → q.validate (.table model) (some (.int horizon)) = .ok ())
    (fits : before.Fits horizon model.stateCount v p rule.isNone) (terminal : TerminalValue α) (settings : Settings α)
    (j : Journal α) :
    ∃ outcome w, (BackwardInduction.run (stageMemory (.table model) rule.isNone horizon v p) (.table model) o horizon
        rule terminal settings).runOn ⟨before, j⟩ = (outcome, w) ∧
      ((∃ e, outcome = .error e ∧ w.memory = before ∧
        ((settings.verbose && settings.lineLength.isNone) = true ∨ terminal.vector model.stateCount = .error e)) ∨
      ∃ last, terminal.vector model.stateCount = .ok last ∧
        Filled (BackwardInduction.decision (.table model) o rule) horizon model.stateCount v p last before outcome
          w.memory) := by
  have onJournal (c : Journaled α Unit) : (Workspace.onJournal c).runOn (⟨before, j⟩ : Workspace (Storage α) α)
      = ((c.runOn j).1, ⟨before, (c.runOn j).2⟩) := rfl
  rw [BackwardInduction.run, InPlace.runOn_bind, onJournal]
  rcases opened : (Journaled.begin settings BackwardInduction.algorithm BackwardInduction.valueName o
    (Model.table model).stateCount).runOn j with ⟨e | _, k⟩
  · exact ⟨.error e, ⟨before, k⟩, rfl, Or.inl ⟨e, rfl, rfl, Or.inl (Journaled.begin_error opened)⟩⟩
  dsimp only
  rw [InPlace.runOn_bind, InPlace.runOn_lift]
  cases ended : terminal.vector (Model.table model).stateCount with
  | error e => exact ⟨.error e, ⟨before, k⟩, rfl, Or.inl ⟨e, rfl, rfl, Or.inr ended⟩⟩
  | ok last =>
    have put : (Workspace.onMemory (InPlace.update fun s => .ok ((stageMemory (.table model) rule.isNone horizon v
        p).putTerminal last s))).runOn ⟨before, k⟩ = (.ok (), ⟨before.fill (rowOf v horizon) last.toList, k⟩) := rfl
    obtain ⟨outcome, w, ran, filled⟩ := stages_reach valid horizon le_rfl
      ⟨before.fill (rowOf v horizon) last.toList, k⟩ (fits.reached_end last) (fits.fill last.toList).1
    dsimp only
    rw [InPlace.runOn_bind_ok put, InPlace.runOn_bind, ran]
    cases outcome with
    | ok _ => exact ⟨.ok (), _, rfl, Or.inr ⟨last, ended, filled⟩⟩
    | error e => exact ⟨.error e, w, rfl, Or.inr ⟨last, ended, filled⟩⟩

theorem stagePolicy_ok {m : Model α} {policy : Option (PolicyData α)} {actions : Option View}
    {rule : Option (Policy α)} (known : stagePolicy m horizon policy actions = .ok rule) :
    (∀ q, rule = some q → q.validate m (some (.int horizon)) = .ok ()) ∧
      (rule.isNone = true → ∃ p, actions = some p) := by
  cases policy with
  | none =>
    rw [stagePolicy] at known
    split at known
    · rename_i shaped
      cases known
      refine ⟨fun q none => (by cases none), fun _ => ?_⟩
      cases actions with
      | none => cases shaped
      | some p => exact ⟨p, rfl⟩
    · cases known
  | some given =>
    obtain ⟨q, validated, same⟩ := Outcome.bind_ok.mp known
    cases same
    refine ⟨?_, fun none => by cases none⟩
    rintro _ ⟨⟩
    exact (PolicyData.validate_ok.mp validated).2

end Storage

end MarkovDecision
