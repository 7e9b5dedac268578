import MarkovDecision.Proofs.Process.Transience
import MarkovDecision.Proofs.Representation
import MarkovDecision.Proofs.Sweep

namespace MarkovDecision

deriving instance DecidableEq for SweepBuffers

variable {α : Type}

structure Transition.Copies [Scalar α] (t u : Transition α) : Prop where
  next : ∃ i, t.next.column? = some i ∧ u.next = .index i
  probability : u.probability.value = t.probability.value
  reward : u.reward.value = t.reward.value

def StateLabel.Inside (states : Nat) (label : StateLabel) : Prop := ∃ i < states, label = .index (i : Nat)

structure FlatModel.Copies [Scalar α] (f : FlatModel α) (m : Model α) : Prop where
  states : f.stateCount = m.stateCount
  covers : f.Covers
  actions : ∀ s < m.stateCount, ∃ k : Nat, 0 < k ∧ m.actionCount (s : Nat) = .ok (k : Int) ∧
    (Model.flat f).actionCount (s : Nat) = .ok (k : Int) ∧ ∀ a < k, ∃ ts us,
      m.transitions (s : Nat) (a : Nat) = .ok ts ∧ (Model.flat f).transitions (s : Nat) (a : Nat) = .ok us ∧
      List.Forall₂ Transition.Copies ts us ∧ ∀ u ∈ us, u.next.Inside m.stateCount

-- All next states are named by whole numbers. Labels of another kind can be copied, but no value can be
-- looked up by them.
def Model.Indexed (m : Model α) : Prop :=
  ∀ (s a : Nat) ts, m.transitions s a = .ok ts → ∀ t ∈ ts, ∃ i, t.next = .index i

theorem StateLabel.column?_index {i j : Int} (known : (StateLabel.index i).column? = some j) : j = i := by
  change (if Literal.inWord i then some i else none) = some j at known
  split at known
  · exact (Option.some.inj known).symm
  · cases known

theorem Table.transitions_inside {t : Table α} {s a : Nat} {ts : List (Transition α)}
    (known : t.transitions (s : Nat) (a : Nat) = .ok ts) :
    s < t.stateCount ∧ ∃ k : Nat, a < k ∧ (Model.table t).actionCount (s : Nat) = .ok (k : Int) := by
  obtain ⟨actions, atState, known⟩ := Outcome.bind_ok.mp known
  obtain ⟨_, atAction, _⟩ := Outcome.bind_ok.mp known
  obtain ⟨inside, _⟩ := Array.getElem?_eq_some_iff.mp (entry_ok.mp atState)
  obtain ⟨within, _⟩ := Array.getElem?_eq_some_iff.mp (entry_ok.mp atAction)
  refine ⟨inside, actions.size, within, ?_⟩
  change (entry t.states (s : Nat) >>= fun actions => pure (actions.size : Int)) = _
  rw [atState]
  rfl

section Copying

variable [Scalar α]

theorem columnsOf_copies {ts : List (Transition α)} {c : Columns α} (made : Model.columnsOf ts = .ok c) :
    List.Forall₂ Transition.Copies ts ((c.next.zip (c.probability.zip c.reward)).map
      fun (n, p, r) => ⟨.index n, .real p, .real r⟩) := by
  obtain ⟨next, read, same⟩ := Outcome.bind_ok.mp made
  cases same
  have each := Outcome.mapM_forall₂ read
  clear read made
  dsimp only
  induction each with
  | nil => exact .nil
  | @cons t i ts next first _ ih =>
    have known : t.next.column? = some i := by
      cases label : t.next.column? with
      | none => rw [label] at first; cases first
      | some j => rw [label] at first; exact congrArg some (Except.ok.inj first)
    exact .cons ⟨⟨i, known, rfl⟩, rfl, rfl⟩ ih

theorem actionArrays_read {ts : List (Transition α)} {c : ActionArrays α}
    (read : (Model.columnsOf ts).map ActionArrays.ofColumns = .ok c) :
    ∃ columns, Model.columnsOf ts = .ok columns ∧ c = .ofColumns columns := by
  cases made : Model.columnsOf ts with
  | error e => rw [made] at read; cases read
  | ok columns => rw [made] at read; exact ⟨columns, rfl, (Except.ok.inj read).symm⟩

def Model.Given (m : Model α) (states : List (List (Outcome α (ActionArrays α)))) : Prop :=
  ∀ (s : Nat) (inside : s < states.length),
    (states[s] ≠ [] → m.actionCount (s : Nat) = .ok (states[s].length : Int)) ∧
    ∀ (a : Nat) (within : a < states[s].length), ∃ ts, m.transitions (s : Nat) (a : Nat) = .ok ts ∧
      states[s][a] = (Model.columnsOf ts).map .ofColumns

theorem Model.flatten_given {m : Model α} {f : FlatModel α} (made : m.flatten false = .ok f) :
    ∃ states, states.length = m.stateCount ∧ m.Given states ∧
      FlatModel.build FlatModel.defaultTolerance (states.map Except.ok) = .ok f := by
  obtain ⟨states, read, built⟩ := Outcome.bind_ok.mp made
  obtain ⟨length, each⟩ := Outcome.mapM_range_get read
  refine ⟨states, length, fun s inside => ?_, built⟩
  obtain ⟨count, known, read⟩ := Outcome.bind_ok.mp (each s inside)
  obtain ⟨size, actions⟩ := Outcome.mapM_range_get read
  refine ⟨fun some => ?_, fun a within => ?_⟩
  · have positive := List.length_pos_iff.mpr some
    rw [known, size, Int.toNat_of_nonneg (by omega)]
  · obtain ⟨ts, known, same⟩ := Outcome.bind_ok.mp (actions a within)
    exact ⟨ts, known, (Except.ok.inj same).symm⟩

theorem Model.Given.shaped {m : Model α} {states : List (List (Outcome α (ActionArrays α)))}
    (given : m.Given states) : ∀ row : List (Outcome α (ActionArrays α)),
      (Except.ok row : Outcome α _) ∈ states.map Except.ok →
      ∀ c, (Except.ok c : Outcome α _) ∈ row → c.WellShaped := by
  intro row inStates c inRow
  obtain ⟨_, inStates, same⟩ := List.mem_map.mp inStates
  cases same
  obtain ⟨s, inside, rfl⟩ := List.getElem_of_mem inStates
  obtain ⟨a, within, same⟩ := List.getElem_of_mem inRow
  obtain ⟨ts, _, read⟩ := (given s inside).2 a within
  obtain ⟨columns, _, rfl⟩ := actionArrays_read (read.symm.trans same)
  exact ActionArrays.ofColumns_shaped columns

structure Model.Columned (m : Model α) (rows : List (List (Columns α))) : Prop where
  states : rows.length = m.stateCount
  actions : ∀ (s : Nat) (inside : s < rows.length), m.actionCount (s : Nat) = .ok (rows[s].length : Int)
  outcomes : ∀ (s : Nat) (inside : s < rows.length) (a : Nat) (within : a < rows[s].length),
    ∃ ts, m.transitions (s : Nat) (a : Nat) = .ok ts ∧ Model.columnsOf ts = .ok rows[s][a]

def FlatModel.Buildable (rows : List (List (Columns α))) : Prop := rows ≠ [] ∧ ∀ row ∈ rows,
  row ≠ [] ∧ ∀ c ∈ row, (ActionArrays.ofColumns c).Admissible rows.length FlatModel.defaultTolerance

def Columns.kept (merge : Bool) (c : Columns α) : Columns α := if merge then c.merged else c

theorem Model.Columned.flatten {m : Model α} {rows : List (List (Columns α))} (columned : m.Columned rows)
    (merge : Bool) : m.flatten merge = FlatModel.build FlatModel.defaultTolerance
      ((rows.map (List.map (Columns.kept merge))).map fun row => .ok (row.map fun c => .ok (.ofColumns c))) := by
  have action (s : Nat) (inside : s < rows.length) (a : Nat) (within : a < rows[s].length) :
      m.actionArrays merge s a = .ok (.ok (.ofColumns (rows[s][a].kept merge))) := by
    obtain ⟨ts, known, made⟩ := columned.outcomes s inside a within
    rw [actionArrays, known, Outcome.ok_bind, made]
    cases merge <;> rfl
  have state (s : Nat) (inside : s < rows.length) : (do
      let count ← m.actionCount s
      (List.range count.toNat).mapM fun (a : Nat) => m.actionArrays merge s a)
      = .ok ((rows[s].map (Columns.kept merge)).map fun c => .ok (.ofColumns c)) := by
    rw [columned.actions s inside, Outcome.ok_bind]
    refine Outcome.mapM_range_ok (by simp) fun a within => ?_
    rw [action s inside a (by simpa using within)]
    simp
  have whole : (List.range m.stateCount).mapM (fun (s : Nat) => do
      let count ← m.actionCount s
      (List.range count.toNat).mapM fun (a : Nat) => m.actionArrays merge s a)
      = .ok ((rows.map (List.map (Columns.kept merge))).map fun row => row.map fun c => .ok (.ofColumns c)) :=
    Outcome.mapM_range_ok (by simp [columned.states]) fun s inside =>
      (state s (by simpa using inside)).trans (by simp)
  rw [Model.flatten, whole, Outcome.ok_bind, List.map_map]
  rfl

theorem Model.flatten_columned {m : Model α} {f : FlatModel α} (made : m.flatten false = .ok f) :
    ∃ rows, m.Columned rows ∧ FlatModel.Buildable rows := by
  obtain ⟨states, length, given, built⟩ := m.flatten_given made
  obtain ⟨laid, _, some, _, accepted⟩ := FlatModel.build_layout given.shaped built
  have paired : states.length = laid.length := by simpa using accepted.length_eq
  have each : ∀ s < states.length, ∃ row : List (Columns α), row ≠ [] ∧
      m.actionCount (s : Nat) = .ok (row.length : Int) ∧
      (∀ (a : Nat) (within : a < row.length),
        ∃ ts, m.transitions (s : Nat) (a : Nat) = .ok ts ∧ columnsOf ts = .ok row[a]) ∧
      ∀ c ∈ row, (ActionArrays.ofColumns c).Admissible states.length FlatModel.defaultTolerance := by
    intro s inside
    obtain ⟨_, _, same, some, checked⟩ := accepted.get (by simpa using inside) (paired ▸ inside)
    simp only [List.get_eq_getElem, List.getElem_map, Except.ok.injEq] at same checked
    subst same
    have columns : ∀ a < states[s].length, ∃ c : Columns α,
        (∃ ts, m.transitions (s : Nat) (a : Nat) = .ok ts ∧ columnsOf ts = .ok c) ∧
        (ActionArrays.ofColumns c).Admissible states.length FlatModel.defaultTolerance := by
      intro a within
      obtain ⟨ts, known, read⟩ := (given s inside).2 a within
      obtain ⟨same, i, passed⟩ := checked.get within (checked.length_eq ▸ within)
      obtain ⟨c, made, laid⟩ := actionArrays_read (read.symm.trans same)
      rw [laid, List.length_map] at passed
      exact ⟨c, ⟨ts, known, made⟩, ActionArrays.check_ok.mp passed⟩
    obtain ⟨row, size, fits⟩ := exists_list columns
    refine ⟨row, ?_, ?_, fun a within => (fits a within).1, fun c member => ?_⟩
    · exact List.length_pos_iff.mp (size ▸ List.length_pos_iff.mpr some)
    · rw [size]
      exact (given s inside).1 some
    · obtain ⟨a, within, rfl⟩ := List.getElem_of_mem member
      exact (fits a within).2
  obtain ⟨rows, size, fits⟩ := exists_list each
  refine ⟨rows, ⟨size.trans length, fun s inside => (fits s inside).2.1, fun s inside => (fits s inside).2.2.1⟩, ?_⟩
  refine ⟨?_, fun row member => ?_⟩
  · exact List.length_pos_iff.mp (size ▸ List.length_pos_iff.mpr (by simpa using some))
  · obtain ⟨s, inside, rfl⟩ := List.getElem_of_mem member
    rw [size]
    exact ⟨(fits s inside).1, (fits s inside).2.2.2⟩

theorem Model.flatten_lists {m : Model α} {f : FlatModel α} (made : m.flatten false = .ok f) :
    ∃ rows, m.Columned rows ∧ FlatModel.Buildable rows ∧ f.Lists rows := by
  obtain ⟨rows, columned, some, each⟩ := flatten_columned made
  obtain ⟨g, built, lists⟩ := FlatModel.build_lists some each
  have plain : rows.map (List.map (Columns.kept false)) = rows := by
    have kept : (Columns.kept false : Columns α → Columns α) = id := rfl
    rw [kept, List.map_id_fun, List.map_id]
  rw [columned.flatten, plain, built] at made
  cases made
  exact ⟨rows, columned, ⟨some, each⟩, lists⟩

theorem flatten_copies {m : Model α} {f : FlatModel α} (made : m.flatten false = .ok f) : f.Copies m := by
  obtain ⟨rows, columned, ⟨_, each⟩, lists⟩ := Model.flatten_lists made
  refine ⟨lists.states.trans columned.states, lists.covers, fun s inside => ?_⟩
  have inRows : s < rows.length := by rwa [columned.states]
  obtain ⟨some, admissible⟩ := each rows[s] (List.getElem_mem inRows)
  refine ⟨rows[s].length, List.length_pos_iff.mpr some, columned.actions s inRows, lists.actions s inRows,
    fun a within => ?_⟩
  obtain ⟨ts, known, made⟩ := columned.outcomes s inRows a within
  refine ⟨ts, _, known, lists.outcomes s inRows a within, columnsOf_copies made, fun u member => ?_⟩
  obtain ⟨⟨n, p, r⟩, zipped, rfl⟩ := List.mem_map.mp member
  have range := (admissible _ (List.getElem_mem within)).inside n
    (List.mem_toArray.mpr (List.of_mem_zip zipped).1)
  rw [columned.states] at range
  exact ⟨n.toNat, by omega, by rw [Int.toNat_of_nonneg range.1]⟩

-- The numbers are the same, and so is the order in which they are added.
theorem backup_copied {ts us : List (Transition α)} (copies : List.Forall₂ Transition.Copies ts us)
    (indexed : ∀ t ∈ ts, ∃ i, t.next = .index i) (discount : α) (v : Reader α) :
    backup discount v ts = backup discount v us := by
  unfold backup
  generalize (Scalar.zero : α) = start
  induction copies generalizing start with
  | nil => rfl
  | @cons t u ts us first _ ih =>
    obtain ⟨⟨i, named⟩, later⟩ := List.forall_mem_cons.mp indexed
    obtain ⟨j, known, label⟩ := first.next
    rw [named] at known
    have same := StateLabel.column?_index known
    rw [List.foldlM_cons, List.foldlM_cons, named, label, same, first.probability, first.reward]
    exact bind_congr fun total => ih later total

theorem backup_inside {us : List (Transition α)} {n : Nat} (inside : ∀ u ∈ us, u.next.Inside n)
    {v : Array α} (size : v.size = n) (discount : α) :
    ∃ x, backup discount (Reader.ofArray v) us = .ok x := by
  refine Outcome.foldlM_exists (fun total u member => ?_) _
  obtain ⟨i, below, label⟩ := inside u member
  refine ⟨total + u.probability.value * (u.reward.value + discount * v[i]), ?_⟩
  rw [label, StateLabel.position, Outcome.ok_bind, Reader.ofArray, entry_nat (by omega)]
  rfl

theorem indexed_of_backup {ts : List (Transition α)} {discount x : α} {v : Reader α}
    (done : backup discount v ts = .ok x) : ∀ t ∈ ts, ∃ i, t.next = .index i := by
  intro t member
  obtain ⟨_, _, step⟩ := Outcome.foldlM_each done t member
  obtain ⟨_, found, _⟩ := Outcome.bind_ok.mp step
  cases label : t.next with
  | index i => exact ⟨i, rfl⟩
  | other l => rw [label] at found; cases found

variable {m : Model α} {f : FlatModel α} {goal : Goal α} {discount : α} {s : Nat} {v : Array α}

namespace FlatModel.Copies

theorem columnar (copies : f.Copies m) (known : goal.discount = .ok discount) (inside : s < m.stateCount) :
    f.greedyChoice discount s (Reader.ofArray v)
      = (Model.flat f).greedyChoice goal (s : Nat) (Reader.ofArray v) := by
  obtain ⟨k, positive, _, count, each⟩ := copies.actions s inside
  refine f.greedyChoice_eq copies.covers known _ positive count fun a within => ?_
  obtain ⟨_, us, _, listed, _⟩ := each a within
  exact ⟨us, listed⟩

theorem choice (copies : f.Copies m) (known : goal.discount = .ok discount) (size : v.size = m.stateCount)
    (inside : s < m.stateCount) :
    ∃ c, (Model.flat f).greedyChoice goal (s : Nat) (Reader.ofArray v) = .ok c := by
  obtain ⟨k, positive, _, count, each⟩ := copies.actions s inside
  rw [Model.greedyChoice, Model.positiveCount_ok positive count, Outcome.ok_bind]
  refine Outcome.foldlM_exists (fun best a member => ?_) _
  obtain ⟨_, us, _, listed, _, labels⟩ := each a (List.mem_range.mp member)
  obtain ⟨x, value⟩ := backup_inside labels size discount
  rw [Model.actionValue, known, Outcome.ok_bind, listed, Outcome.ok_bind, value]
  exact ⟨_, rfl⟩

theorem choice_same (copies : f.Copies m) (indexed : m.Indexed) (inside : s < m.stateCount) :
    m.greedyChoice goal (s : Nat) (Reader.ofArray v)
      = (Model.flat f).greedyChoice goal (s : Nat) (Reader.ofArray v) := by
  obtain ⟨k, positive, given, count, each⟩ := copies.actions s inside
  rw [Model.greedyChoice, Model.greedyChoice, Model.positiveCount_ok positive given,
    Model.positiveCount_ok positive count, Outcome.ok_bind, Outcome.ok_bind]
  refine Outcome.foldlM_congr (fun best a member => ?_) _
  obtain ⟨ts, us, known, listed, same, _⟩ := each a (List.mem_range.mp member)
  simp only [Model.actionValue, known, listed, Outcome.ok_bind,
    fun d => backup_copied same (indexed s a ts known) d (Reader.ofArray v)]

end FlatModel.Copies

theorem Model.actionValue_of_greedyChoice {c : Choice α} {k : Nat} (positive : 0 < k)
    (count : m.actionCount (s : Nat) = .ok (k : Int)) {r : Reader α}
    (chosen : m.greedyChoice goal (s : Nat) r = .ok c) {a : Nat} (within : a < k) :
    ∃ x, m.actionValue goal (s : Nat) (a : Nat) r = .ok x := by
  rw [greedyChoice, positiveCount_ok positive count, Outcome.ok_bind] at chosen
  obtain ⟨_, _, step⟩ := Outcome.foldlM_each chosen a (List.mem_range.mpr within)
  obtain ⟨x, value, _⟩ := Outcome.bind_ok.mp step
  exact ⟨x, value⟩

section Passes

variable {schedule : Schedule} {parts : List (List Nat)} {value : Nat → α} {action : Nat → Int}
  {start : SweepBuffers α}

theorem FlatModel.Copies.choices (copies : f.Copies m) (known : goal.discount = .ok discount)
    (size : v.size = m.stateCount) : ∃ (value : Nat → α) (action : Nat → Int), ∀ s < m.stateCount,
      (Model.flat f).greedyChoice goal (s : Nat) (Reader.ofArray v) = .ok (value s, action s) := by
  have each : ∀ s < m.stateCount, ∃ c,
      (Model.flat f).greedyChoice goal (s : Nat) (Reader.ofArray v) = .ok c :=
    fun s inside => copies.choice known size inside
  have : Nonempty (Choice α) := ⟨Choice.none⟩
  choose! c found using each
  exact ⟨fun s => (c s).1, fun s => (c s).2, found⟩

theorem FlatModel.Copies.sweep (copies : f.Copies m) (known : goal.discount = .ok discount)
    (cut : (schedule.chunks m.stateCount : Outcome α _) = .ok parts)
    (choices : ∀ s < m.stateCount,
      (Model.flat f).greedyChoice goal (s : Nat) (Reader.ofArray v) = .ok (value s, action s))
    (room : start.HasSize m.stateCount) :
    ((SweepBuffers.memory v).bellmanSweep (.flat f) goal schedule).runOn start
      = (.ok (), ⟨Array.ofFn fun s : Fin m.stateCount => value s,
        Array.ofFn fun s : Fin m.stateCount => action s⟩) := by
  have same : (Model.flat f).stateCount = m.stateCount := copies.states
  rw [← same] at cut choices room ⊢
  refine SweepBuffers.bellmanSweep_runOn known cut (fun g isFlat s inside => ?_) value action choices room
  cases isFlat
  exact copies.columnar known (same ▸ inside)

theorem Table.indexed_of_sweep {t : Table α}
    (cut : (schedule.chunks t.stateCount : Outcome α _) = .ok parts) {x y : SweepBuffers α}
    (done : ((SweepBuffers.memory v).bellmanSweep (.table t) goal schedule).runOn x = (.ok (), y)) :
    (Model.table t).Indexed := by
  intro s a ts known
  obtain ⟨inside, k, within, count⟩ := Table.transitions_inside known
  rw [SweepMemory.bellmanSweep, cut, InPlace.runOn_bind_ok (InPlace.runOn_lift _ _)] at done
  obtain ⟨_, _, step⟩ := runChunks_each done s
    (by rw [Schedule.chunks_flatten cut]; exact List.mem_range.mpr inside)
  obtain ⟨_, _, _, step⟩ := InPlace.runOn_bind_eq_ok step
  obtain ⟨_, _, chosen, _⟩ := InPlace.runOn_bind_eq_ok step
  obtain ⟨x, valued⟩ := Model.actionValue_of_greedyChoice (by omega) count (InPlace.lift_eq_ok chosen).1 within
  obtain ⟨_, _, valued⟩ := Outcome.bind_ok.mp valued
  obtain ⟨_, listed, valued⟩ := Outcome.bind_ok.mp valued
  rw [known] at listed
  cases listed
  exact indexed_of_backup valued

theorem FlatModel.Copies.sweep_iff {t : Table α} (copies : f.Copies (.table t))
    (known : goal.discount = .ok discount) (cut : (schedule.chunks t.stateCount : Outcome α _) = .ok parts)
    (choices : ∀ s < t.stateCount,
      (Model.flat f).greedyChoice goal (s : Nat) (Reader.ofArray v) = .ok (value s, action s))
    (room : start.HasSize t.stateCount) (after : SweepBuffers α) :
    ((SweepBuffers.memory v).bellmanSweep (.table t) goal schedule).runOn start = (.ok (), after) ↔
      (Model.table t).Indexed ∧ after = ⟨Array.ofFn fun s : Fin t.stateCount => value s,
        Array.ofFn fun s : Fin t.stateCount => action s⟩ := by
  have ran (indexed : (Model.table t).Indexed) :
      ((SweepBuffers.memory v).bellmanSweep (.table t) goal schedule).runOn start
        = (.ok (), ⟨Array.ofFn fun s : Fin t.stateCount => value s,
          Array.ofFn fun s : Fin t.stateCount => action s⟩) :=
    SweepBuffers.bellmanSweep_runOn known cut (fun _ isFlat => by cases isFlat) value action
      (fun s inside => (copies.choice_same indexed inside).trans (choices s inside)) room
  constructor
  · intro done
    have indexed := Table.indexed_of_sweep cut done
    rw [ran indexed] at done
    cases done
    exact ⟨indexed, rfl⟩
  · rintro ⟨indexed, rfl⟩
    exact ran indexed

end Passes

end Copying

section Exact

variable {K : Type}

theorem table_transitions {n : Nat} (P : Process n K) {s a : Nat} {ts : List (Transition (Extended K))}
    (known : P.table.transitions (s : Nat) (a : Nat) = .ok ts) :
    ∃ bs : List (Branch n K), ts = bs.map Branch.transition := by
  obtain ⟨actions, atState, known⟩ := Outcome.bind_ok.mp known
  obtain ⟨_, atAction, rfl⟩ := Outcome.bind_ok.mp known
  have row := entry_ok.mp atState
  rw [Process.table, Array.getElem?_ofFn] at row
  split at row
  · cases row
    have cell := entry_ok.mp atAction
    rw [Array.getElem?_ofFn] at cell
    split at cell
    · cases cell
      exact ⟨_, rfl⟩
    · cases cell
  · cases row

theorem table_indexed {n : Nat} (P : Process n K) : (Model.table P.table).Indexed := by
  intro s a ts known t member
  obtain ⟨bs, rfl⟩ := table_transitions P known
  obtain ⟨b, _, rfl⟩ := List.mem_map.mp member
  exact ⟨_, rfl⟩

variable [Field K] [LinearOrder K]

theorem bellman_greatest {n : Nat} {P : Process n K} {γ : K} {v : Fin n → K} {s : Fin n} :
    IsGreatest {x | x ∈ List.ofFn (P.actionValue γ v s)} (P.bellman γ v s) ∧
      IsLeast {i : Nat | (List.ofFn (P.actionValue γ v s))[i]? = some (P.bellman γ v s)} (P.greedy γ v s) := by
  refine ⟨⟨?_, ?_⟩, ?_, ?_⟩
  · exact (List.mem_ofFn' _ _).mpr ⟨P.greedy γ v s, P.actionValue_greedy γ v s⟩
  · intro x member
    obtain ⟨a, rfl⟩ := (List.mem_ofFn' _ _).mp member
    exact Process.actionValue_le_bellman a
  · simp [P.actionValue_greedy γ v s]
  · intro i attained
    simp only [Set.mem_ofPred_eq, List.getElem?_ofFn] at attained
    split at attained
    · exact Process.greedy_le (Option.some.inj attained)
    · cases attained

variable [FloorRing K]

theorem defaultTolerance_exact [IsStrictOrderedRing K] : (FlatModel.defaultTolerance : Extended K) = .finite (1 / 10 ^ 6) :=
  Extended.tenth_finite 6

def Model.Exact (m : Model (Extended K)) : Prop :=
  ∀ (s a : Nat) ts, m.transitions s a = .ok ts → ∀ t ∈ ts,
    (∃ p, t.probability.value = .finite p) ∧ ∃ r, t.reward.value = .finite r

theorem FlatModel.Copies.describes {m : Model (Extended K)} {f : FlatModel (Extended K)}
    (copies : f.Copies m) (exact : m.Exact) :
    ∃ P : Process m.stateCount K, (Model.flat f).Describes P := by
  have same : (Model.flat f).stateCount = m.stateCount := copies.states
  rw [← same]
  refine Model.exists_process copies.covers fun s inside => ?_
  obtain ⟨k, positive, _, count, each⟩ := copies.actions s (same ▸ inside)
  refine ⟨k, positive, count, fun a within => ?_⟩
  obtain ⟨ts, us, known, listed, paired, labels⟩ := each a within
  refine ⟨us, listed, fun u member => ?_⟩
  obtain ⟨t, given, copied⟩ := exists_left_of_forall₂ paired u member
  obtain ⟨⟨p, probability⟩, r, reward⟩ := exact s a ts known t given
  obtain ⟨i, below, label⟩ := labels u member
  exact ⟨⟨⟨i, same ▸ below⟩, p, r⟩, label, copied.probability.trans probability, copied.reward.trans reward⟩

theorem table_exact {n : Nat} (P : Process n K) : (Model.table P.table).Exact := by
  intro s a ts known t member
  obtain ⟨bs, rfl⟩ := table_transitions P known
  obtain ⟨b, _, rfl⟩ := List.mem_map.mp member
  exact ⟨⟨_, rfl⟩, _, rfl⟩

def FlatModel.Maximal (f : FlatModel (Extended K)) (goal : Goal (Extended K)) (v : Array (Extended K)) (s : Nat)
    (choice : Choice (Extended K)) : Prop :=
  (Model.flat f).greedyChoice goal (s : Nat) (Reader.ofArray v) = .ok choice ∧
  ∃ (values : List K) (value : K) (action : Nat), choice = (.finite value, (action : Int)) ∧
    (Model.flat f).actionValues goal (s : Nat) (Reader.ofArray v) = .ok (values.map .finite) ∧
    IsGreatest {x | x ∈ values} value ∧ IsLeast {i | values[i]? = some value} action

theorem FlatModel.Copies.maximal {m : Model (Extended K)} {f : FlatModel (Extended K)} (copies : f.Copies m)
    (exact : m.Exact) {goal : Goal (Extended K)} {γ : K} (known : goal.discount = .ok (.finite γ))
    (v : Fin m.stateCount → K) {s : Nat} (inside : s < m.stateCount) {choice : Choice (Extended K)}
    (chosen : (Model.flat f).greedyChoice goal (s : Nat) (Reader.ofArray (exactVector v)) = .ok choice) :
    f.Maximal goal (exactVector v) s choice := by
  obtain ⟨P, described⟩ := copies.describes exact
  have found := greedyChoice_exact described known v ⟨s, inside⟩
  exact ⟨chosen, _, _, _, Except.ok.inj (chosen.symm.trans found),
    actionValues_exact described known v ⟨s, inside⟩, bellman_greatest⟩

end Exact

-- A table whose next states are whole numbers is swept as its copy is, whatever the arithmetic; no other
-- table that was copied can be swept to its end. On exact numbers what is written is the greatest value of
-- each state and the first action that has it.
theorem sweep_flattened :
    (∀ {α : Type} [Scalar α] {t : Table α} {f : FlatModel α} {goal : Goal α} {discount : α} {v : Array α}
      {schedule : Schedule} {parts : List (List Nat)} {start : SweepBuffers α},
      (Model.table t).flatten false = .ok f → goal.discount = .ok discount → v.size = t.stateCount →
      (schedule.chunks t.stateCount : Outcome α _) = .ok parts → start.HasSize t.stateCount →
      ∃ written : SweepBuffers α, written.HasSize t.stateCount ∧
        ((SweepBuffers.memory v).bellmanSweep (.flat f) goal schedule).runOn start = (.ok (), written) ∧
        ∀ after, ((SweepBuffers.memory v).bellmanSweep (.table t) goal schedule).runOn start = (.ok (), after)
          ↔ (Model.table t).Indexed ∧ after = written) ∧
    ∀ {K : Type} [Field K] [LinearOrder K] [FloorRing K] {t : Table (Extended K)}
      {f : FlatModel (Extended K)} {goal : Goal (Extended K)} {γ : K} {schedule : Schedule}
      {parts : List (List Nat)} {start : SweepBuffers (Extended K)} (v : Fin t.stateCount → K),
      (Model.table t).flatten false = .ok f → (Model.table t).Exact → goal.discount = .ok (.finite γ) →
      (schedule.chunks t.stateCount : Outcome (Extended K) _) = .ok parts → start.HasSize t.stateCount →
      ∃ written : SweepBuffers (Extended K),
        ((SweepBuffers.memory (exactVector v)).bellmanSweep (.flat f) goal schedule).runOn start
          = (.ok (), written) ∧
        ∀ s < t.stateCount, ∃ choice, written.values[s]? = some choice.1 ∧
          written.actions[s]? = some choice.2 ∧ f.Maximal goal (exactVector v) s choice := by
  constructor
  · intro α _ t f goal discount v schedule parts start made known size cut room
    have copies := flatten_copies made
    obtain ⟨value, action, choices⟩ := copies.choices known size
    exact ⟨_, ⟨Array.size_ofFn, Array.size_ofFn⟩, copies.sweep known cut choices room,
      copies.sweep_iff known cut choices room⟩
  · intro K _ _ _ t f goal γ schedule parts start v made exact known cut room
    have copies := flatten_copies made
    obtain ⟨value, action, choices⟩ := copies.choices known (exactVector_size v)
    refine ⟨_, copies.sweep known cut choices room, fun s inside => ⟨(value s, action s), ?_⟩⟩
    exact ⟨ofFn_getElem? value inside, ofFn_getElem? action inside,
      copies.maximal exact known v inside (choices s inside)⟩

-- Waiting and leaving are worth the same here.
theorem sweep_flattened_departing : ∃ f written, (Model.table Process.departing.table).flatten false = .ok f ∧
    ((SweepBuffers.memory (exactVector ![6, 0])).bellmanSweep (.flat f)
      (.objective (.infinite (.finite (1 / 2)))) .serial).runOn (.zeros 2) = (.ok (), written) ∧
    ((SweepBuffers.memory (exactVector ![6, 0])).bellmanSweep (.table Process.departing.table)
      (.objective (.infinite (.finite (1 / 2)))) .serial).runOn (.zeros 2) = (.ok (), written) ∧
    ∀ s < 2, ∃ choice, written.values[s]? = some choice.1 ∧ written.actions[s]? = some choice.2 ∧
      f.Maximal (.objective (.infinite (.finite (1 / 2)))) (exactVector ![6, 0]) s choice := by
  have accepted : ((Model.table Process.departing.table).flatten false).isOk = true := by decide +kernel
  cases made : (Model.table Process.departing.table).flatten false with
  | error e =>
    rw [made] at accepted
    cases accepted
  | ok f =>
    have known : (Goal.objective (.infinite (.finite (1 / 2))) : Goal (Extended ℚ)).discount
        = .ok (.finite (1 / 2)) := rfl
    have cut : (Schedule.serial.chunks 2 : Outcome (Extended ℚ) _) = .ok [List.range 2] := rfl
    have room : (SweepBuffers.zeros 2 : SweepBuffers (Extended ℚ)).HasSize 2 := SweepBuffers.zeros_size 2
    obtain ⟨written, _, flat, table⟩ := sweep_flattened.1 made known (exactVector_size ![6, 0]) cut room
    obtain ⟨_, again, maximal⟩ := sweep_flattened.2 ![6, 0] made (table_exact Process.departing) known cut room
    cases flat.symm.trans again
    exact ⟨f, written, rfl, flat, (table written).mpr ⟨table_indexed Process.departing, rfl⟩, maximal⟩

def Table.spelled : Table (Extended ℚ) := ⟨#[#[.ok [⟨.other (.text "0"), .whole 1, .whole 1⟩]]]⟩

theorem spelled_not_swept : ∃ f, (Model.table Table.spelled).flatten false = .ok f ∧
    (Model.flat f).bellman (.objective (.infinite (.finite (1 / 2)))) (exactVector ![0]) .serial
      = .ok ⟨exactVector ![1], #[0]⟩ ∧
    (Model.table Table.spelled).bellman (.objective (.infinite (.finite (1 / 2)))) (exactVector ![0]) .serial
      = .error .index := by
  have ends : (match (Model.table Table.spelled).flatten false with
    | .ok f => match (Model.flat f).bellman (.objective (.infinite (.finite (1 / 2)))) (exactVector ![0]) .serial with
      | .ok b => decide (b = ⟨exactVector ![1], #[0]⟩)
      | .error _ => false
    | .error _ => false) = true := by decide +kernel
  cases made : (Model.table Table.spelled).flatten false with
  | error e => rw [made] at ends; cases ends
  | ok f =>
    rw [made] at ends
    refine ⟨f, rfl, ?_, rfl⟩
    dsimp only at ends
    split at ends
    · rename_i b swept
      rw [swept, of_decide_eq_true ends]
    · cases ends

end MarkovDecision
