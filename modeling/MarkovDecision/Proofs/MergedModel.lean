import MarkovDecision.Proofs.CopiedModel
import MarkovDecision.Proofs.Merging
import MarkovDecision.Proofs.RewardProcesses
import MarkovDecision.ValueIteration.Basic

namespace MarkovDecision

section Alike

variable {α : Type} [Scalar α]

structure FlatModel.Alike (f g : FlatModel α) : Prop where
  states : f.stateCount = g.stateCount
  covers : f.Covers ∧ g.Covers
  actions : ∀ s < f.stateCount, ∃ k : Nat, 0 < k ∧ f.actionCount (s : Nat) = .ok (k : Int) ∧
    g.actionCount (s : Nat) = .ok (k : Int) ∧ ∀ a < k, ∃ ts us,
      f.transitions (s : Nat) (a : Nat) = .ok ts ∧ g.transitions (s : Nat) (a : Nat) = .ok us ∧
      ∀ (discount : α) (v : Array α), backup discount (Reader.ofArray v) ts = backup discount (Reader.ofArray v) us

theorem FlatModel.actionCount_outside {α : Type} (f : FlatModel α) {s : Nat} (outside : f.stateCount ≤ s) :
    f.actionCount (s : Nat) = .error .index := by
  have missing : f.stateOffsets[s + 1]? = none := Array.getElem?_eq_none (by unfold stateCount at outside; omega)
  rw [actionCount]
  cases read : entry (α := α) f.stateOffsets ((s : Nat) + 1) with
  | error e => rw [entry_failure read, Outcome.error_bind]
  | ok x =>
    rw [(entry_ok (i := s + 1)).mp read] at missing
    cases missing

namespace FlatModel.Alike

variable {f g : FlatModel α} (alike : f.Alike g)

include alike

theorem actionCount (s : Nat) : f.actionCount (s : Nat) = g.actionCount (s : Nat) := by
  by_cases inside : s < f.stateCount
  · obtain ⟨k, _, first, second, _⟩ := alike.actions s inside
    rw [first, second]
  · have outside := Nat.le_of_not_lt inside
    rw [f.actionCount_outside outside, g.actionCount_outside (alike.states ▸ outside)]

theorem actionValue (goal : Goal α) (s : Nat) (a : Int) (v : Array α) :
    (Model.flat f).actionValue goal (s : Nat) a (Reader.ofArray v)
      = (Model.flat g).actionValue goal (s : Nat) a (Reader.ofArray v) := by
  by_cases inside : s < f.stateCount
  · obtain ⟨k, _, first, second, each⟩ := alike.actions s inside
    by_cases valid : 0 ≤ a ∧ a < k
    · obtain ⟨ts, us, here, there, same⟩ := each a.toNat (by omega)
      rw [Int.toNat_of_nonneg valid.1] at here there
      have here : (Model.flat f).transitions (s : Nat) a = .ok ts := here
      have there : (Model.flat g).transitions (s : Nat) a = .ok us := there
      rw [Model.actionValue, Model.actionValue, here, there]
      exact bind_congr fun discount => same discount v
    · have refused (h : FlatModel α) (count : h.actionCount (s : Nat) = .ok (k : Int)) :
          (Model.flat h).transitions (s : Nat) a = .error (.actionIndex a (s : Nat)) := by
        rw [Model.transitions, FlatModel.transitions, FlatModel.columns_elsewhere count valid, Outcome.error_bind]
      rw [Model.actionValue, Model.actionValue, refused f first, refused g second]
  · have outside := Nat.le_of_not_lt inside
    have missing (h : FlatModel α) (none : h.actionCount (s : Nat) = .error .index) :
        (Model.flat h).transitions (s : Nat) a = .error .index := by
      rw [Model.transitions, FlatModel.transitions, FlatModel.columns, none, Outcome.error_bind, Outcome.error_bind]
    rw [Model.actionValue, Model.actionValue, missing f (f.actionCount_outside outside),
      missing g (g.actionCount_outside (alike.states ▸ outside))]

theorem modelChoice (goal : Goal α) (s : Nat) (v : Array α) :
    (Model.flat f).greedyChoice goal (s : Nat) (Reader.ofArray v)
      = (Model.flat g).greedyChoice goal (s : Nat) (Reader.ofArray v) := by
  have count : (Model.flat f).positiveCount (s : Nat) = (Model.flat g).positiveCount (s : Nat) := by
    rw [Model.positiveCount, Model.positiveCount, Model.actionCount, Model.actionCount]
    simp only [alike.actionCount]
  rw [Model.greedyChoice, Model.greedyChoice, count]
  refine bind_congr fun k => Outcome.foldlM_congr (fun best a _ => ?_) _
  rw [alike.actionValue]

theorem policyValue (goal : Goal α) (t : Int) (s : Nat) (policy : Policy α) (v : Array α) :
    (Model.flat f).policyValue goal t (s : Nat) policy (Reader.ofArray v)
      = (Model.flat g).policyValue goal t (s : Nat) policy (Reader.ofArray v) := by
  rw [Model.policyValue, Model.policyValue]
  refine bind_congr fun choices => Outcome.foldlM_congr (fun total c _ => ?_) _
  dsimp only
  rw [alike.actionValue]

theorem greedyChoice (discount : α) {s : Nat} (inside : s < f.stateCount) (v : Array α) :
    f.greedyChoice discount s (Reader.ofArray v) = g.greedyChoice discount s (Reader.ofArray v) := by
  obtain ⟨k, positive, first, second, each⟩ := alike.actions s inside
  have known : (Goal.objective (.infinite discount) : Goal α).discount = .ok discount := rfl
  have here : ∀ a < k, ∃ ts, f.transitions (s : Nat) (a : Nat) = .ok ts := fun a within => by
    obtain ⟨ts, _, here, _⟩ := each a within
    exact ⟨ts, here⟩
  have there : ∀ a < k, ∃ us, g.transitions (s : Nat) (a : Nat) = .ok us := fun a within => by
    obtain ⟨_, us, _, there, _⟩ := each a within
    exact ⟨us, there⟩
  rw [f.greedyChoice_eq alike.covers.1 known _ positive first here,
    g.greedyChoice_eq alike.covers.2 known _ positive second there, alike.modelChoice]

section Passes

variable {σ : Type} {mem : SweepMemory σ α} {w : σ → Array α} (reads : ∀ x, mem.value x = Reader.ofArray (w x))

include reads

theorem bellmanSweep (goal : Goal α) (schedule : Schedule) :
    mem.bellmanSweep (.flat f) goal schedule = mem.bellmanSweep (.flat g) goal schedule := by
  rw [SweepMemory.bellmanSweep, SweepMemory.bellmanSweep]
  refine bind_congr fun discount => ?_
  rw [SweepMemory.flatSweep, SweepMemory.flatSweep, ← alike.states]
  refine InPlace.forM_congr fun s member => ?_
  rw [SweepMemory.flatStep, SweepMemory.flatStep]
  refine bind_congr fun x => ?_
  rw [reads x, alike.greedyChoice discount (List.mem_range.mp member)]

theorem policySweep (goal : Goal α) (t : Int) (policy : Policy α) (schedule : Schedule) :
    mem.policySweep (.flat f) goal t policy schedule = mem.policySweep (.flat g) goal t policy schedule := by
  have states : (Model.flat f).stateCount = (Model.flat g).stateCount := alike.states
  have steps : mem.policyStep (.flat f) goal t policy = mem.policyStep (.flat g) goal t policy := by
    funext s
    rw [SweepMemory.policyStep, SweepMemory.policyStep]
    refine bind_congr fun x => ?_
    rw [reads x, alike.policyValue]
  rw [SweepMemory.policySweep, SweepMemory.policySweep, states, steps]

end Passes

theorem bellman (goal : Goal α) (v : Array α) (schedule : Schedule) :
    (Model.flat f).bellman goal v schedule = (Model.flat g).bellman goal v schedule := by
  have states : (Model.flat f).stateCount = (Model.flat g).stateCount := alike.states
  rw [Model.bellman, Model.bellman, alike.bellmanSweep (w := fun _ => v) fun _ => rfl, states]

theorem followed (goal : Goal α) (t : Int) (v : Array α) (policy : Policy α) (schedule : Schedule) :
    (Model.flat f).followed goal t v policy schedule = (Model.flat g).followed goal t v policy schedule := by
  have states : (Model.flat f).stateCount = (Model.flat g).stateCount := alike.states
  rw [Model.followed, Model.followed, alike.policySweep (w := fun _ => v) fun _ => rfl, states]

theorem checkStage (rule : Policy α) : Policy.checkStage (.flat f) rule = Policy.checkStage (.flat g) rule := by
  have states : (Model.flat f).stateCount = (Model.flat g).stateCount := alike.states
  have actions (taken : Array Int) : Policy.checkAction (.flat f) taken = Policy.checkAction (.flat g) taken := by
    funext s
    rw [Policy.checkAction, Policy.checkAction, Model.actionCount, Model.actionCount, alike.actionCount]
  have weights (taken : Array (Weights α)) :
      Policy.checkWeights (.flat f) taken = Policy.checkWeights (.flat g) taken := by
    funext s
    rw [Policy.checkWeights, Policy.checkWeights, Model.actionCount, Model.actionCount, alike.actionCount]
  unfold Policy.checkStage
  rw [states]
  simp only [actions, weights]

theorem validate (given : PolicyData α) (horizon : Option Literal) :
    given.validate (.flat f) horizon = given.validate (.flat g) horizon := by
  have stages : Policy.checkStage (.flat f) = Policy.checkStage (.flat g) := funext alike.checkStage
  simp only [PolicyData.validate, Policy.validate, stages]

theorem infiniteRun (o : Objective α) (discount : α) (policy : Option (Policy α)) (settings : Settings α) :
    FixpointIteration.run (.flat f) o discount policy settings
      = FixpointIteration.run (.flat g) o discount policy settings := by
  have states : (Model.flat f).stateCount = (Model.flat g).stateCount := alike.states
  have schedules : FixpointIteration.schedule (.flat f) policy settings
      = FixpointIteration.schedule (.flat g) policy settings := by
    unfold FixpointIteration.schedule
    split <;> simp_all
  have steps (schedule : Schedule) : FixpointIteration.step (.flat f) o policy schedule
      = FixpointIteration.step (.flat g) o policy schedule := by
    funext v
    cases policy with
    | none => rw [FixpointIteration.step, FixpointIteration.step, alike.bellman]
    | some p => exact alike.followed (.objective o) 0 v p schedule
  simp only [FixpointIteration.run, FixpointIteration.start, schedules, steps, states, alike.bellman]

theorem stages (o : Objective α) (policy : Option (Policy α)) (horizon : Nat) :
    BackwardInduction.stages Stages.memory (.flat f) o policy horizon
      = BackwardInduction.stages Stages.memory (.flat g) o policy horizon := by
  have sweeps (t : Nat) : BackwardInduction.sweep Stages.memory (.flat f) o policy t
      = BackwardInduction.sweep Stages.memory (.flat g) o policy t := by
    have reads : ∀ b : Stages α, (Stages.memory.stage t).value b = Reader.ofArray (b.valueRow (t + 1)) := fun _ => rfl
    cases policy with
    | none => exact alike.bellmanSweep reads (.objective o) .serial
    | some p => exact bind_congr fun rule => alike.policySweep reads (.objective o) t rule .serial
  induction horizon with
  | zero => rfl
  | succ t ih => rw [BackwardInduction.stages, BackwardInduction.stages, sweeps, ih]

theorem valueIteration (o : Objective α) (policy : Option (PolicyData α)) (terminal : Option (TerminalValue α))
    (settings : Settings α) : MarkovDecision.valueIteration (.flat f) o policy terminal settings
      = MarkovDecision.valueIteration (.flat g) o policy terminal settings := by
  have states : (Model.flat f).stateCount = (Model.flat g).stateCount := alike.states
  cases o with
  | infinite discount =>
    simp only [MarkovDecision.valueIteration, infiniteValueIteration, alike.validate, alike.infiniteRun]
  | finite discount horizon =>
    simp only [MarkovDecision.valueIteration, finiteValueIteration, BackwardInduction.run, alike.validate, alike.stages,
      states]
  | total => rfl
  | base => rfl

end FlatModel.Alike

end Alike

section Merged

variable {K : Type} [Field K] [LinearOrder K]

structure Chance.Acceptable (states : Nat) (es : List (Chance K)) : Prop where
  some : es ≠ []
  inside : ∀ e ∈ es, 0 ≤ e.next ∧ e.next < states
  positive : Positive es
  bounded : ∀ e ∈ es, e.probability ≤ 1 + 1 / 10 ^ 6
  total : |(es.map (·.probability)).sum - 1| ≤ 1 / 10 ^ 6

structure FlatModel.MergeOf (f g : FlatModel (Extended K)) : Prop where
  states : f.stateCount = g.stateCount
  covers : f.Covers ∧ g.Covers
  actions : ∀ s < f.stateCount, ∃ k : Nat, 0 < k ∧ f.actionCount (s : Nat) = .ok (k : Int) ∧
    g.actionCount (s : Nat) = .ok (k : Int) ∧ ∀ a < k, ∃ es : List (Chance K),
      Chance.Acceptable f.stateCount es ∧ f.transitions (s : Nat) (a : Nat) = .ok (es.map Chance.transition) ∧
      g.transitions (s : Nat) (a : Nat) = .ok ((Chance.merge es).map Chance.transition)

section Outcomes

variable {f g : FlatModel (Extended K)} (copies : f.MergeOf g) {s : Nat} (inside : s < g.stateCount) {a : Int}
  {us : List (Transition (Extended K))} (known : g.transitions (s : Nat) a = .ok us)

include copies inside known

theorem FlatModel.MergeOf.outcomes :
    ∃ es : List (Chance K), Chance.Acceptable g.stateCount es ∧ us = (Chance.merge es).map Chance.transition := by
  rw [← copies.states] at inside ⊢
  obtain ⟨k, _, _, count, each⟩ := copies.actions s inside
  obtain ⟨c, read, _⟩ := Outcome.bind_ok.mp known
  rw [FlatModel.columns, count, Outcome.ok_bind] at read
  obtain ⟨valid, _⟩ := Outcome.unless_ok.mp read
  simp only [Bool.or_eq_false_iff, decide_eq_false_iff_not, not_lt, not_le] at valid
  obtain ⟨es, acceptable, _, there⟩ := each a.toNat (by omega)
  rw [Int.toNat_of_nonneg valid.1, known] at there
  exact ⟨es, acceptable, Except.ok.inj there⟩

theorem FlatModel.MergeOf.ascending :
    ∃ is : List Int, us.map (·.next) = is.map .index ∧ is.Pairwise (· < ·) := by
  obtain ⟨es, _, rfl⟩ := copies.outcomes inside known
  refine ⟨Chance.targets es, ?_, Chance.targets_ascending es⟩
  rw [List.map_map, ← Chance.merge_next, List.map_map]
  rfl

end Outcomes

variable [FloorRing K]

theorem columnsOf_exact {ts : List (Transition (Extended K))} {c : Columns (Extended K)}
    (made : Model.columnsOf ts = .ok c) (exact : ∀ t ∈ ts,
      (∃ p, t.probability.value = .finite p) ∧ ∃ r, t.reward.value = .finite r) :
    ∃ es : List (Chance K), c = Chance.columns es := by
  obtain ⟨next, read, same⟩ := Outcome.bind_ok.mp made
  cases same
  have each := Outcome.mapM_forall₂ read
  clear read made
  induction each with
  | nil => exact ⟨[], rfl⟩
  | @cons t i ts next _ _ ih =>
    obtain ⟨⟨⟨p, probability⟩, r, reward⟩, later⟩ := List.forall_mem_cons.mp exact
    obtain ⟨es, same⟩ := ih later
    rw [Columns.mk.injEq] at same
    refine ⟨⟨i, p, r⟩ :: es, ?_⟩
    rw [List.map_cons, List.map_cons, probability, reward, same.1, same.2.1, same.2.2]
    rfl

variable [IsStrictOrderedRing K]

theorem admissible_exact {states : Nat} {es : List (Chance K)} :
    (ActionArrays.ofColumns (Chance.columns es)).Admissible states FlatModel.defaultTolerance ↔
      Chance.Acceptable states es := by
  have total : Scalar.abs (Scalar.arraySum (Chance.columns es).probability - Scalar.one)
      = (.finite |(es.map (·.probability)).sum - 1| : Extended K) :=
    Extended.deviation_exact Chance.probability es
  have probabilities (P : Extended K → Prop) : (∀ p ∈ (Chance.columns es).probability.toArray, P p) ↔
      ∀ e ∈ es, P (.finite e.probability) := by
    simp [Chance.columns]
  have labels (P : Int → Prop) : (∀ i ∈ (Chance.columns es).next.toArray, P i) ↔ ∀ e ∈ es, P e.next := by
    simp [Chance.columns]
  constructor
  · rintro ⟨⟨k, length, _, _, some⟩, inside, positive, bounded, sum⟩
    refine ⟨?_, (labels _).mp inside, ?_, ?_, ?_⟩
    · rintro rfl
      cases length
      exact some rfl
    · simpa [Chance.Positive] using (probabilities _).mp positive
    · simpa [defaultTolerance_exact] using (probabilities _).mp bounded
    · have sum : Scalar.lt _ (Scalar.abs (Scalar.arraySum (Chance.columns es).probability - Scalar.one)) = false := sum
      rw [total, defaultTolerance_exact] at sum
      simpa using sum
  · intro acceptable
    refine ⟨⟨es.length, ?_, ?_, ?_, ?_⟩, (labels _).mpr acceptable.inside, (probabilities _).mpr ?_,
      (probabilities _).mpr ?_, ?_⟩
    · simp [ActionArrays.ofColumns, Chance.columns, Tensor.ofVector, Tensor.length?]
    · simp [ActionArrays.ofColumns, Chance.columns, Tensor.ofVector, Tensor.length?]
    · simp [ActionArrays.ofColumns, Chance.columns, Tensor.ofVector, Tensor.length?]
    · simpa using acceptable.some
    · simpa [Chance.Positive] using acceptable.positive
    · simpa [defaultTolerance_exact] using acceptable.bounded
    · change Scalar.lt _ (Scalar.abs (Scalar.arraySum (Chance.columns es).probability - Scalar.one)) = false
      rw [total, defaultTolerance_exact]
      simpa using acceptable.total

theorem Chance.Acceptable.merge {states : Nat} {es : List (Chance K)} (acceptable : Acceptable states es) :
    Acceptable states (Chance.merge es) := by
  have total := acceptable.positive.sum_probability fun _ => 1
  simp only [mul_one] at total
  refine ⟨?_, fun e member => ?_, acceptable.positive.merge, fun e member => ?_, ?_⟩
  · obtain ⟨e, member⟩ := List.exists_mem_of_ne_nil es acceptable.some
    exact List.ne_nil_of_mem (List.mem_map_of_mem (mem_targets.mpr ⟨e, member, rfl⟩))
  · obtain ⟨e', listed, same⟩ := mem_targets.mp (acceptable.positive.gathers member).target
    rw [← same]
    exact acceptable.inside e' listed
  · have part : mass e.next es ≤ (es.map (·.probability)).sum :=
      (List.filter_sublist.map _).sum_le_sum fun p listed => by
        obtain ⟨e', member, rfl⟩ := List.mem_map.mp listed
        exact (acceptable.positive e' member).le
    rw [(acceptable.positive.gathers member).probability]
    have above := (abs_le.mp acceptable.total).2
    linarith
  · rw [total]
    exact acceptable.total

theorem flatten_merged {m : Model (Extended K)} {f : FlatModel (Extended K)} (made : m.flatten false = .ok f)
    (exact : m.Exact) : ∃ g, m.flatten true = .ok g ∧ f.MergeOf g := by
  obtain ⟨rows, columned, ⟨some, each⟩, lists⟩ := Model.flatten_lists made
  -- the columns of each action are exact and acceptable
  have chances (s : Nat) (inside : s < rows.length) (a : Nat) (within : a < rows[s].length) :
      ∃ es, rows[s][a] = Chance.columns es ∧ Chance.Acceptable rows.length es := by
    obtain ⟨ts, known, read⟩ := columned.outcomes s inside a within
    obtain ⟨es, same⟩ := columnsOf_exact read (exact s a ts known)
    refine ⟨es, same, admissible_exact.mp ?_⟩
    rw [← same]
    exact (each rows[s] (List.getElem_mem inside)).2 _ (List.getElem_mem within)
  have merged (s : Nat) (inside : s < rows.length) (a : Nat) (within : a < rows[s].length) :
      ∃ es, Chance.Acceptable rows.length es ∧ rows[s][a] = Chance.columns es ∧
        rows[s][a].kept true = Chance.columns (Chance.merge es) := by
    obtain ⟨es, same, acceptable⟩ := chances s inside a within
    refine ⟨es, acceptable, same, ?_⟩
    rw [same]
    exact Chance.columns_merged es
  have size : (rows.map (List.map (Columns.kept true))).length = rows.length := List.length_map _
  have buildable : FlatModel.Buildable (rows.map (List.map (Columns.kept true))) := by
    refine ⟨by simpa using some, fun row member => ?_⟩
    obtain ⟨row, inRows, rfl⟩ := List.mem_map.mp member
    refine ⟨by simpa using (each row inRows).1, fun c member => ?_⟩
    obtain ⟨c, inRow, rfl⟩ := List.mem_map.mp member
    obtain ⟨s, inside, rfl⟩ := List.getElem_of_mem inRows
    obtain ⟨a, within, rfl⟩ := List.getElem_of_mem inRow
    obtain ⟨es, acceptable, _, kept⟩ := merged s inside a within
    rw [kept, size]
    exact admissible_exact.mpr acceptable.merge
  obtain ⟨g, built, mergedLists⟩ := FlatModel.build_lists buildable.1 buildable.2
  refine ⟨g, (columned.flatten true).trans built, ?_, ⟨lists.covers, mergedLists.covers⟩, fun s inside => ?_⟩
  · rw [lists.states, mergedLists.states, size]
  · have inRows : s < rows.length := by rwa [← lists.states]
    refine ⟨rows[s].length, List.length_pos_iff.mpr (each rows[s] (List.getElem_mem inRows)).1,
      lists.actions s inRows, ?_, fun a within => ?_⟩
    · rw [mergedLists.actions s (by rwa [size])]
      simp
    · obtain ⟨es, acceptable, same, kept⟩ := merged s inRows a within
      refine ⟨es, by rwa [lists.states], ?_, ?_⟩
      · rw [lists.outcomes s inRows a within, same]
        exact congrArg Except.ok (Chance.columns_transitions es)
      · rw [mergedLists.outcomes s (by rwa [size]) a (by simpa using within)]
        simp only [List.getElem_map, kept]
        exact congrArg Except.ok (Chance.columns_transitions (Chance.merge es))

namespace FlatModel.MergeOf

variable {f g : FlatModel (Extended K)} (copies : f.MergeOf g)

include copies

theorem alike : f.Alike g := by
  refine ⟨copies.states, copies.covers, fun s inside => ?_⟩
  obtain ⟨k, positive, first, second, each⟩ := copies.actions s inside
  refine ⟨k, positive, first, second, fun a within => ?_⟩
  obtain ⟨es, acceptable, here, there⟩ := each a within
  exact ⟨_, _, here, there, fun discount v => (acceptable.positive.backup_merge discount v).symm⟩

theorem listed : (Model.flat g).Listed := by
  intro s inside
  obtain ⟨k, _, _, count, each⟩ := copies.actions s (copies.states ▸ inside)
  refine ⟨k, count, fun a within => ?_⟩
  obtain ⟨es, acceptable, _, there⟩ := each a within
  refine ⟨_, there, fun u member => ?_⟩
  obtain ⟨e, inMerge, rfl⟩ := List.mem_map.mp member
  have range := acceptable.merge.inside e inMerge
  have states : (Model.flat g).stateCount = f.stateCount := copies.states.symm
  exact ⟨e.next.toNat, by omega, by rw [Int.toNat_of_nonneg range.1]; rfl⟩

theorem not_structural {given : PolicyData (Extended K)} {e : Failure (Extended K)}
    (failed : RewardProcess.collectedRows (.flat g) given = .error e) : e.kind ≠ .structural := by
  cases accepted : stationaryPolicy (.flat g) given with
  | error refusal =>
    rw [RewardProcess.collectedRows, accepted] at failed
    cases failed
    refine stationaryPolicy_failure (fun s inside => ?_) accepted
    obtain ⟨k, count, _⟩ := copies.listed s inside
    exact ⟨k, count⟩
  | ok p =>
    intro structural
    obtain ⟨s, inside, _, a, _, us, known, twice⟩ :=
      (collectedRows_structural copies.listed accepted).mp ⟨e, failed, structural⟩
    obtain ⟨is, labels, sorted⟩ := copies.ascending inside known
    rw [labels] at twice
    exact twice ((sorted.imp ne_of_lt).map StateLabel.index fun i j other same => other (StateLabel.index.inj same))

end FlatModel.MergeOf

-- Whatever model is accepted as it is, is accepted with its outcomes merged. The merged copy has its states,
-- actions and values of actions, so value iteration runs on it as on the other copy; its actions list
-- their next states in ascending order, and no policy meets one that repeats a next state.
theorem merging_keeps_runs {m : Model (Extended K)} {f : FlatModel (Extended K)} (made : m.flatten false = .ok f)
    (exact : m.Exact) : ∃ g, m.flatten true = .ok g ∧ g.stateCount = f.stateCount ∧
      (∀ s < f.stateCount, g.actionCount (s : Nat) = f.actionCount (s : Nat)) ∧
      (∀ goal, ∀ s < f.stateCount, ∀ a v, (Model.flat g).actionValue goal (s : Nat) a (Reader.ofArray v)
        = (Model.flat f).actionValue goal (s : Nat) a (Reader.ofArray v)) ∧
      (∀ o policy terminal settings, valueIteration (.flat g) o policy terminal settings
        = valueIteration (.flat f) o policy terminal settings) ∧
      (∀ s < g.stateCount, ∀ a us, g.transitions (s : Nat) a = .ok us →
        ∃ is : List Int, us.map (·.next) = is.map .index ∧ is.Pairwise (· < ·)) ∧
      ∀ given e, RewardProcess.ofPolicy (.flat g) given = .error e ∨
        SparseRewardProcess.ofPolicy (.flat g) given = .error e → e.kind ≠ .structural := by
  obtain ⟨g, merged, copies⟩ := flatten_merged made exact
  have alike := copies.alike
  refine ⟨g, merged, copies.states.symm, fun s _ => (alike.actionCount s).symm,
    fun goal s _ a v => (alike.actionValue goal s a v).symm,
    fun o policy terminal settings => (alike.valueIteration o policy terminal settings).symm,
    fun s inside a us known => copies.ascending inside known, fun given e failed => ?_⟩
  rw [RewardProcess.ofPolicy_collected copies.listed, SparseRewardProcess.ofPolicy_collected copies.listed] at failed
  cases rows : RewardProcess.collectedRows (.flat g) given with
  | error refusal =>
    rw [rows] at failed
    rcases failed with dense | sparse
    · cases dense
      exact copies.not_structural rows
    · cases sparse
      exact copies.not_structural rows
  | ok rows' =>
    rw [rows] at failed
    rcases failed with dense | sparse
    · cases dense
    · cases sparse

theorem merging_keeps_runs_returning : ∃ f g, (Model.table Process.returning.table).flatten false = .ok f ∧
    (Model.table Process.returning.table).flatten true = .ok g ∧
    valueIteration (.flat g) (.infinite (.finite (1 / 2))) none none (.quiet 10 1 0)
      = valueIteration (.flat f) (.infinite (.finite (1 / 2))) none none (.quiet 10 1 0) := by
  have accepted : ((Model.table Process.returning.table).flatten false).isOk = true := by decide +kernel
  cases made : (Model.table Process.returning.table).flatten false with
  | error e =>
    rw [made] at accepted
    cases accepted
  | ok f =>
    obtain ⟨g, merged, _, _, _, runs, _⟩ := merging_keeps_runs made (table_exact Process.returning)
    exact ⟨f, g, rfl, merged, runs _ _ _ _⟩

end Merged

end MarkovDecision
