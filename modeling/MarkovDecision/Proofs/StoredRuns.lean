import MarkovDecision.Proofs.FlatArrays
import MarkovDecision.Proofs.MirroredStages
import MarkovDecision.Report

namespace MarkovDecision

theorem eq_flatten {β : Type} {n : Nat} {pieces : List (List β)} : ∀ {xs : List β}, xs.length ≤ pieces.length * n →
    (∀ (k : Nat) (inside : k < pieces.length), (xs.drop (k * n)).take n = pieces[k]) → xs = pieces.flatten := by
  induction pieces with
  | nil =>
    intro xs room _
    exact List.length_eq_zero_iff.mp (by simpa using room)
  | cons piece rest ih =>
    intro xs room each
    have first : xs.take n = piece := by simpa using each 0 (Nat.succ_pos _)
    have later : xs.drop n = rest.flatten := by
      refine ih ?_ fun k inside => ?_
      · rw [List.length_cons, Nat.succ_mul] at room
        rw [List.length_drop]
        omega
      · have next := each (k + 1) (Nat.succ_lt_succ inside)
        rw [Nat.succ_mul, Nat.add_comm, ← List.drop_drop, List.getElem_cons_succ] at next
        exact next
    rw [List.flatten_cons, ← first, ← later, List.take_append_drop]

theorem Tensor.eq_ofRows {β : Type} {t : Tensor β} {rows : Array (Array β)} {n : Nat} (shape : t.shape = [rows.size, n])
    (room : t.cells.size ≤ rows.size * n)
    (each : ∀ k < rows.size, t.cells.extract (k * n) (k * n + n) = rows.getD k #[]) : t = .ofRows n rows := by
  have pieces : t.cells.toList = (rows.toList.map Array.toList).flatten := by
    refine eq_flatten (n := n) (by simpa using room) fun k inside => ?_
    have below : k < rows.size := by simpa using inside
    have row := congrArg Array.toList (each k below)
    rw [Array.toList_extract, List.extract_eq_take_drop, Nat.add_sub_cancel_left] at row
    simpa [Array.getD, below] using row
  have cells : t.cells = rows.foldl (· ++ ·) #[] := by
    rw [← Array.foldl_toList, foldl_append, ← pieces]
    simp
  exact congrArg₂ Tensor.mk shape cells

namespace Storage

variable {α : Type} [Scalar α] {m : Model α} {x before : Storage α} {b : Stages α} {v w p : View}
  {N horizon n t s k : Nat} {optimise : Bool}

section Matrices

theorem cells_le (m : Storage α) (v : View) : (m.reals v).cells.size ≤ v.size := by
  rw [reals]
  cases m.buffer v with
  | reals cells =>
    rw [Array.size_extract]
    omega
  | wholes cells =>
    rw [Array.size_map, Array.size_extract]
    omega

theorem reals_ofRows (shape : v.shape = [N, n]) {rows : Array (Array α)} (count : rows.size = N)
    (each : ∀ k < N, x.valueRow v k = rows.getD k #[]) : x.reals v = .ofRows n rows := by
  subst count
  have axes : (x.reals v).shape = [rows.size, n] := by
    rw [reals]
    cases x.buffer v <;> exact shape
  refine Tensor.eq_ofRows axes ((cells_le x v).trans (View.size_matrix shape).le) fun k below => ?_
  exact (valueRow_extract shape below).symm.trans (each k below)

theorem wholes_ofRows (shape : v.shape = [N, n]) {rows : Array (Array Int)} (count : rows.size = N)
    (each : ∀ k < N, x.actionRow v k = rows.getD k #[]) : x.wholes v = .ofRows n rows := by
  subst count
  have axes : (x.wholes v).shape = [rows.size, n] := by
    rw [wholes]
    cases x.buffer v <;> exact shape
  have room : (x.wholes v).cells.size ≤ v.size := (reals_size x v).ge.trans (cells_le x v)
  refine Tensor.eq_ofRows axes (room.trans (View.size_matrix shape).le) fun k below => ?_
  exact (actionRow_extract shape below).symm.trans (each k below)

end Matrices

section Made

def lendStages (here : Storage α) (n : Nat) (stages : Stages α) : View × View × Storage α :=
  let (v, here) := here.addReals (.ofRows n stages.values)
  let (p, here) := here.addWholes (.ofRows n stages.actions)
  (v, p, here)

theorem ofRows_replicate {β : Type} (N n : Nat) (blank : β) :
    Tensor.ofRows n (Array.replicate N (Array.replicate n blank)) = ⟨[N, n], Array.replicate (N * n) blank⟩ := by
  rw [Tensor.ofRows, ← Array.foldl_toList, foldl_append, Array.toList_replicate, List.map_replicate,
    Array.toList_replicate, List.flatten_replicate_replicate]
  simp

theorem lendStages_zeros (here : Storage α) (horizon n : Nat) : here.lendStages n (.zeros horizon n)
    = (⟨here.buffers.size, 0, [horizon + 1, n]⟩, ⟨here.buffers.size + 1, 0, [horizon, n]⟩,
      ⟨(here.buffers.push (.reals (Array.replicate ((horizon + 1) * n) Scalar.zero))).push
        (.wholes (Array.replicate (horizon * n) 0))⟩) := by
  simp [lendStages, Stages.zeros, ofRows_replicate, addReals, addWholes, allocate]

theorem lendStages_lends (here : Storage α) (horizon n : Nat) :
    (here.lendStages n (.zeros horizon n)).2.2.Lends horizon n (here.lendStages n (.zeros horizon n)).1
      (some (here.lendStages n (.zeros horizon n)).2.1) := by
  rw [lendStages_zeros]
  refine ⟨rfl, ?_, ?_, ?_⟩
  · simp [isWhole, buffer, Buffer.isWhole, Array.getD, Array.getElem_push]
  · simp [reals, buffer, View.size, Tensor.volume, Array.getD, Array.getElem_push]
  · rintro p ⟨⟩
    refine ⟨rfl, ?_, ?_⟩
    · simp [isWhole, buffer, Buffer.isWhole, Array.getD, Array.getElem_push]
    · simp [wholes, buffer, View.size, Tensor.volume, Array.getD, Array.getElem_push]

end Made

section Runs

variable {γ : α} {policy : Option (PolicyData α)} {terminal : Option (TerminalValue α)} {settings : Settings α}
  {actions : Option View} {rule : Option (Policy α)} {o : Objective α}

-- What a run leaves in the matrices that were lent: the values that are returned, and the actions of the policy that is
-- returned, or what was there if a policy was given. No other buffer has changed.
structure Carries (before : Storage α) (n : Nat) (policy : Option (PolicyData α)) (v : View) (actions : Option View)
    (result : ValueIterationResult α) (after : Storage α) : Prop where
  values : ∃ rows, result.value = .staged rows ∧ after.reals v = .ofRows n rows
  optimised : policy = none →
    ∃ stages, result.policy = some (.markov stages) ∧ ∀ p ∈ actions, after.wholes p = .ofRows n stages
  evaluated : policy ≠ none → result.policy = none ∧ ∀ p ∈ actions, after.wholes p = before.wholes p
  elsewhere : ∀ w : View, w.buffer ≠ v.buffer → (∀ p ∈ actions, w.buffer ≠ p.buffer) →
    after.buffer w = before.buffer w

inductive Agrees (before : Storage α) (n : Nat) (policy : Option (PolicyData α)) (v : View) (actions : Option View) :
    Outcome α (ValueIterationResult α) → Outcome α Unit → Storage α → Prop
  | refused {e : Failure α} {after : Storage α} : Agrees before n policy v actions (.error e) (.error e) after
  | returned {result : ValueIterationResult α} {after : Storage α}
      (carries : before.Carries n policy v actions result after) :
      Agrees before n policy v actions (.ok result) (.ok ()) after

theorem Mirrors.carries (lends : before.Lends horizon n v actions) (optimise : policy.isNone = rule.isNone)
    (mirrors : before.Mirrors horizon n v (actions.getD ⟨v.buffer, 0, [0]⟩) rule.isNone 0 n x b) {j : Trace α} :
    before.Carries n policy v actions { value := .staged b.values
                                        policy := if rule.isNone then some (.markov b.actions) else none
                                        iterations := horizon, residual := none, converged := true, trace := j } x := by
  have done (k : Nat) : ∀ i < n, 0 < k ∨ k = 0 ∧ i < n := fun i below => by omega
  have values : x.reals v = .ofRows n b.values := reals_ofRows lends.shape mirrors.sized.rows fun k below =>
    mirrors.valueRow_same (Nat.le_of_lt_succ below) (done k)
  cases policy with
  | none =>
    cases rule with
    | some q => cases optimise
    | none =>
      refine ⟨⟨_, rfl, values⟩, fun _ => ⟨_, rfl, fun p member => ?_⟩, fun given => absurd rfl given,
        fun w other room => mirrors.elsewhere w other fun _ => ?_⟩
      · obtain rfl : actions = some p := member
        exact wholes_ofRows (lends.decisions p rfl).1 mirrors.sized.stages fun k below =>
          mirrors.actionRow_same below (done k)
      · cases actions with
        | none => exact other
        | some p => exact room p rfl
  | some given =>
    cases rule with
    | none => cases optimise
    | some q =>
      refine ⟨⟨_, rfl, values⟩, fun none => (by cases none), fun _ => ⟨rfl, fun p member => ?_⟩,
        fun w other _ => mirrors.elsewhere w other fun none => (by cases none)⟩
      have same := mirrors.elsewhere p (lends.buffers p member) fun none => (by cases none)
      rw [wholes, wholes, same]

theorem stagePolicy_validated (lends : before.Lends horizon m.stateCount v actions)
    (room : policy = none → ∃ p, actions = some p) : stagePolicy m horizon policy actions
      = policy.mapM fun given => given.validate m (some (.int horizon)) := by
  cases policy with
  | none =>
    obtain ⟨p, rfl⟩ := room rfl
    have shape : (some p).map View.shape = some [horizon, m.stateCount] := congrArg some (lends.decisions p rfl).1
    rw [stagePolicy, shape, if_pos (beq_self_eq_true _)]
    rfl
  | some given => rfl

theorem validated_isNone (known : (policy.mapM fun given => given.validate m (some (.int horizon)) : Outcome α _)
    = .ok rule) : policy.isNone = rule.isNone := by
  cases policy with
  | none =>
    cases known
    rfl
  | some given =>
    obtain ⟨q, _, same⟩ := Outcome.map_eq_ok.mp known
    cases same
    rfl

theorem finiteValueIteration_runOn (room : Tensor.fits settings.capacity [horizon + 1, m.stateCount] = true)
    (known : (policy.mapM fun given => given.validate m (some (.int horizon)) : Outcome α _) = .ok rule)
    (terminal : TerminalValue α) (j : Journal α) :
    (finiteValueIteration m o horizon policy terminal settings).runOn j
      = match (BackwardInduction.run Stages.memory m o horizon rule terminal settings).runOn
          ⟨.zeros horizon m.stateCount, j⟩ with
        | (.ok _, w) => (.ok { value := .staged w.memory.values
                               policy := if rule.isNone then some (.markov w.memory.actions) else none
                               iterations := horizon, residual := none, converged := true
                               trace := BackwardInduction.trace w.journal }, w.journal)
        | (.error e, w) => (.error e, w.journal) := by
  have made : (Stages.make settings.capacity horizon m.stateCount : Outcome α (Stages α)) = .ok (.zeros horizon m.stateCount) :=
    if_pos room
  rw [finiteValueIteration, made, InPlace.runOn_bind_ok (InPlace.runOn_lift (.ok _) j), known,
    InPlace.runOn_bind_ok (InPlace.runOn_lift (.ok _) j), InPlace.runOn_bind_ok (InPlace.runOn_get j)]
  rcases (BackwardInduction.run Stages.memory m o horizon rule terminal settings).runOn ⟨.zeros horizon m.stateCount, j⟩
    with ⟨_ | _, w⟩ <;> rfl

theorem valueIteration_agrees (made : Tensor.fits settings.capacity [horizon + 1, m.stateCount] = true)
    (lends : before.Lends horizon m.stateCount v actions) (room : policy = none → ∃ p, actions = some p)
    (shaped : ∀ w ∈ terminal, w.WellShaped) (γ : α) (j : Journal α) :
    ∃ fresh stored after j',
      (MarkovDecision.valueIteration m (.finite γ horizon) policy terminal settings).runOn j = (fresh, j') ∧
      (valueIteration m (.finite γ horizon) policy (terminal.getD .zero) settings (some v) actions).runOn ⟨before, j⟩
        = (stored, ⟨after, j'⟩) ∧
      before.Agrees m.stateCount policy v actions fresh stored after := by
  have shape : ¬(v.shape != [horizon + 1, m.stateCount]) = true := by
    rw [lends.shape]
    simp
  have opened : (valueIteration m (.finite γ horizon) policy (terminal.getD .zero) settings (some v) actions).runOn
      ⟨before, j⟩ = (InPlace.lift (stagePolicy m horizon policy actions) >>= fun rule =>
        BackwardInduction.run (stageMemory m rule.isNone horizon v (actions.getD ⟨v.buffer, 0, [0]⟩)) m
          (.finite γ horizon) horizon rule (terminal.getD .zero) settings).runOn ⟨before, j⟩ := by
    rw [valueIteration, if_neg shape]
  rw [opened, stagePolicy_validated lends room]
  change ∃ fresh stored after j', (finiteValueIteration m (.finite γ horizon) horizon policy (terminal.getD .zero)
    settings).runOn j = _ ∧ _
  cases known : (policy.mapM fun given => given.validate m (some (.int horizon)) : Outcome α _) with
  | error e =>
    have refused : (finiteValueIteration m (.finite γ horizon) horizon policy (terminal.getD .zero) settings).runOn j
        = (.error e, j) := by
      rw [finiteValueIteration, Stages.make, if_pos made, InPlace.runOn_bind_ok (InPlace.runOn_lift (.ok _) j), known]
      rfl
    exact ⟨_, _, before, j, refused, rfl, .refused⟩
  | ok rule =>
    have optimise := validated_isNone known
    have fits := lends.fits fun none => room (Option.isNone_iff_eq_none.mp (optimise.trans none))
    have total : ∀ last, (terminal.getD .zero).vector m.stateCount = .ok last → last.size = m.stateCount := by
      intro last found
      cases terminal with
      | none => exact (show (TerminalValue.zero : TerminalValue α).WellShaped from trivial).size found
      | some w => exact (shaped w rfl).size found
    have paired := BackwardInduction.run_paired (o := .finite γ horizon) (stages_alike m before horizon v _ rule.isNone)
      settings (fun last found => fits.mirrors_end (total last found)) j
    rw [finiteValueIteration_runOn made known, InPlace.runOn_bind_ok (InPlace.runOn_lift (.ok rule) _)]
    generalize (BackwardInduction.run Stages.memory m (.finite γ horizon) horizon rule (terminal.getD .zero)
      settings).runOn ⟨.zeros horizon m.stateCount, j⟩ = fresh at paired ⊢
    generalize (BackwardInduction.run (stageMemory m rule.isNone horizon v _) m (.finite γ horizon) horizon rule
      (terminal.getD .zero) settings).runOn ⟨before, j⟩ = stored at paired ⊢
    cases paired with
    | @ended w w' matching =>
      obtain ⟨same, mirrors⟩ := matching
      refine ⟨_, _, w.memory, w'.journal, rfl, ?_, .returned (mirrors.carries lends optimise)⟩
      exact congrArg (fun j => (Except.ok (), (⟨w.memory, j⟩ : Workspace (Storage α) α))) same
    | @failed e w w' same =>
      refine ⟨_, _, w.memory, w'.journal, rfl, ?_, .refused⟩
      exact congrArg (fun j => (Except.error e, (⟨w.memory, j⟩ : Workspace (Storage α) α))) same

example : ∃ after, (valueIteration (.table Process.leaving.table) (.finite (.finite (1 / 2)) 1) none .zero
      (.quiet 10 1 0) (some ⟨0, 0, [2, 2]⟩) (some ⟨1, 0, [1, 2]⟩)).runOn
        ⟨⟨#[.reals (Array.replicate 4 (.finite (7 : ℚ))), .wholes #[7, 7]]⟩, Journal.empty⟩ = (.ok (), after) ∧
    (after.memory.reals ⟨0, 0, [2, 2]⟩).cells = #[.finite 2, .finite 0, .finite 0, .finite 0] ∧
    (after.memory.wholes ⟨1, 0, [1, 2]⟩).cells = #[1, 0] := ⟨_, rfl, by decide +kernel⟩

theorem Agrees.independent {before' after after' : Storage α} {fresh : Outcome α (ValueIterationResult α)}
    {stored stored' : Outcome α Unit} (agrees : before.Agrees n policy v actions fresh stored after)
    (agrees' : before'.Agrees n policy v actions fresh stored' after') : stored = stored' ∧ (stored = .ok () →
      after.reals v = after'.reals v ∧ (policy = none → ∀ p ∈ actions, after.wholes p = after'.wholes p)) := by
  cases agrees with
  | refused =>
    cases agrees'
    exact ⟨rfl, fun returned => (by cases returned)⟩
  | returned carries =>
    cases agrees' with
    | returned carries' =>
      obtain ⟨rows, value, shown⟩ := carries.values
      obtain ⟨rows', value', shown'⟩ := carries'.values
      cases value.symm.trans value'
      refine ⟨rfl, fun _ => ⟨shown.trans shown'.symm, fun none p member => ?_⟩⟩
      obtain ⟨stages, chosen, shown⟩ := carries.optimised none
      obtain ⟨stages', chosen', shown'⟩ := carries'.optimised none
      cases chosen.symm.trans chosen'
      exact (shown p member).trans (shown' p member).symm

end Runs

end Storage

section Reports

variable {m : Model Float} {goal : Goal Float} {γ : Float} {horizon : Nat} {policy : Option (PolicyData Float)}
  {terminal : Option (TerminalValue Float)} {v : View} {actions : Option View} {before : Storage Float} {capacity : Nat}

theorem Settings.read_capacity {configuration : Literal} {settings : Settings Float}
    (read : Settings.read configuration capacity = .ok settings) : settings.capacity = capacity := by
  obtain ⟨fields, _, rfl⟩ := Outcome.map_eq_ok.mp read
  rfl

theorem reports_agree (known : goal.resolve = .ok (.finite γ horizon))
    (made : Tensor.fits capacity [horizon + 1, m.stateCount] = true) (shaped : ∀ w ∈ terminal, w.WellShaped)
    (configuration : Literal) (lends : before.Lends horizon m.stateCount v actions)
    (room : policy = none → ∃ p, actions = some p) : ∃ stored after,
      reportStoredValueIteration m goal policy (terminal.getD .zero) configuration (some v) actions before capacity
        = (stored, after) ∧
      before.Agrees m.stateCount policy v actions
        (reportValueIteration m goal policy terminal configuration capacity).outcome stored.outcome after ∧
      stored.output = (reportValueIteration m goal policy terminal configuration capacity).output ∧
      stored.warnings = (reportValueIteration m goal policy terminal configuration capacity).warnings ∧
      stored.calls = (reportValueIteration m goal policy terminal configuration capacity).calls := by
  rw [reportStoredValueIteration, reportValueIteration, Report.run, known, Outcome.ok_bind]
  cases read : Settings.read configuration capacity with
  | error e => exact ⟨_, _, rfl, .refused, rfl, rfl, rfl⟩
  | ok settings =>
    obtain ⟨fresh, stored, after, j, ran, ran', agrees⟩ :=
      Storage.valueIteration_agrees (Settings.read_capacity read ▸ made) lends room shaped γ Journal.empty
    rw [Outcome.ok_bind]
    dsimp only [pure, Except.pure]
    rw [ran', Report.ofRun, ran]
    exact ⟨_, _, rfl, agrees, rfl, rfl, rfl⟩

-- Value iteration in a caller's storage fails with what value iteration fails with, or leaves in the storage what value
-- iteration returns, whatever was there before. It prints the same and warns of the same. The storage that is made for
-- an objective may be lent to it.
theorem stored_reports_agree (known : goal.resolve = .ok (.finite γ horizon))
    (made : Tensor.fits capacity [horizon + 1, m.stateCount] = true) (policy : Option (PolicyData Float))
    (shaped : ∀ w ∈ terminal, w.WellShaped) (configuration : Literal) :
    (∀ {v actions before}, before.Lends horizon m.stateCount v actions → (policy = none → ∃ p, actions = some p) →
      ∃ stored after,
        reportStoredValueIteration m goal policy (terminal.getD .zero) configuration (some v) actions before capacity
          = (stored, after) ∧
        before.Agrees m.stateCount policy v actions
          (reportValueIteration m goal policy terminal configuration capacity).outcome stored.outcome after ∧
        stored.output = (reportValueIteration m goal policy terminal configuration capacity).output ∧
        stored.warnings = (reportValueIteration m goal policy terminal configuration capacity).warnings ∧
        stored.calls = (reportValueIteration m goal policy terminal configuration capacity).calls) ∧
    (∀ {v actions before before'}, before.Lends horizon m.stateCount v actions →
      before'.Lends horizon m.stateCount v actions → (policy = none → ∃ p, actions = some p) →
      ∃ stored after after',
        reportStoredValueIteration m goal policy (terminal.getD .zero) configuration (some v) actions before capacity
          = (stored, after) ∧
        reportStoredValueIteration m goal policy (terminal.getD .zero) configuration (some v) actions before' capacity
          = (stored, after') ∧
        (stored.outcome = .ok () → after.reals v = after'.reals v ∧
          (policy = none → ∀ p ∈ actions, after.wholes p = after'.wholes p))) ∧
    ∃ stages, ValueStorage.ofObjective m (.finite γ horizon) capacity = .ok (.staged stages) ∧ ∀ here : Storage Float,
      (here.lendStages m.stateCount stages).2.2.Lends horizon m.stateCount (here.lendStages m.stateCount stages).1
        (some (here.lendStages m.stateCount stages).2.1) := by
  refine ⟨fun lends room => reports_agree known made shaped configuration lends room, fun lends lends' room => ?_,
    ⟨.zeros horizon m.stateCount, ?_, fun here => here.lendStages_lends horizon m.stateCount⟩⟩
  · obtain ⟨⟨outcome, output, warnings, calls⟩, after, ran, agrees, printed, warned, called⟩ :=
      reports_agree known made shaped configuration lends room
    obtain ⟨⟨outcome', output', warnings', calls'⟩, after', ran', agrees', printed', warned', called'⟩ :=
      reports_agree known made shaped configuration lends' room
    obtain ⟨same, shown⟩ := agrees.independent agrees'
    obtain rfl : outcome = outcome' := same
    obtain rfl : output = output' := printed.trans printed'.symm
    obtain rfl : warnings = warnings' := warned.trans warned'.symm
    obtain rfl : calls = calls' := called.trans called'.symm
    exact ⟨_, after, after', ran, ran', shown⟩
  · rw [ValueStorage.ofObjective, Stages.make, if_pos made]
    rfl

def keptState : Table Float := ⟨#[#[.ok [⟨.index 0, .whole 1, .whole 1⟩]]]⟩

def usedMemory (x y : Float) (a : Int) : Storage Float := ⟨#[.reals #[x, y], .wholes #[a]]⟩

theorem usedMemory_lends (x y : Float) (a : Int) : (usedMemory x y a).Lends 1 1 ⟨0, 0, [2, 1]⟩ (some ⟨1, 0, [1, 1]⟩) := by
  refine ⟨rfl, rfl, rfl, ?_⟩
  rintro _ ⟨⟩
  exact ⟨rfl, rfl, rfl⟩

theorem stored_reports_agree_used : ∃ stored after after',
    reportStoredValueIteration (.table keptState) (.objective (.finite 0.5 1)) none (.ofVector #[3]) .null
      (some ⟨0, 0, [2, 1]⟩) (some ⟨1, 0, [1, 1]⟩) (usedMemory 7 8 9) = (stored, after) ∧
    reportStoredValueIteration (.table keptState) (.objective (.finite 0.5 1)) none (.ofVector #[3]) .null
      (some ⟨0, 0, [2, 1]⟩) (some ⟨1, 0, [1, 1]⟩) (usedMemory 0 0 0) = (stored, after') ∧
    (usedMemory 7 8 9).Agrees 1 none ⟨0, 0, [2, 1]⟩ (some ⟨1, 0, [1, 1]⟩) (reportValueIteration (.table keptState)
      (.objective (.finite 0.5 1)) none (some (.ofVector #[3])) .null).outcome stored.outcome after ∧
    (stored.outcome = .ok () → after.reals ⟨0, 0, [2, 1]⟩ = after'.reals ⟨0, 0, [2, 1]⟩) := by
  have shaped : ∀ w ∈ some (TerminalValue.ofVector #[(3 : Float)]), w.WellShaped := by
    rintro _ ⟨⟩
    rfl
  have known : (Goal.objective (.finite 0.5 1)).resolve = .ok (.finite 0.5 1) := rfl
  have made : Tensor.fits Tensor.usualCapacity [1 + 1, (Model.table keptState).stateCount] = true := by decide
  obtain ⟨agree, independent, -⟩ := stored_reports_agree known made none shaped .null
  have room : (none : Option (PolicyData Float)) = none → ∃ p, some (⟨1, 0, [1, 1]⟩ : View) = some p :=
    fun _ => ⟨_, rfl⟩
  obtain ⟨stored, after, ran, agrees, -⟩ := agree (usedMemory_lends 7 8 9) room
  obtain ⟨stored', after₁, after₂, ran₁, ran₂, same⟩ :=
    independent (usedMemory_lends 7 8 9) (usedMemory_lends 0 0 0) room
  cases ran.symm.trans ran₁
  exact ⟨_, _, _, ran, ran₂, agrees, fun ended => (same ended).1⟩

end Reports

end MarkovDecision
