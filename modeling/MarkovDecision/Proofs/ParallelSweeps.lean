import MarkovDecision.Proofs.Interleaving
import MarkovDecision.Proofs.RewardProcesses
import MarkovDecision.Proofs.SharedStorage
import MarkovDecision.ValueIteration.Basic

namespace MarkovDecision

variable {α : Type} [Scalar α]

section Choices

variable {n : Nat} {v : Array α} (room : n ≤ v.size)

include room

theorem backup_exists (discount : α) {ts : List (Transition α)} (labels : ∀ t ∈ ts, t.next.Inside n) :
    ∃ q, backup discount (Reader.ofArray v) ts = .ok q := by
  refine Outcome.foldlM_exists (fun total t member => ?_) _
  obtain ⟨i, below, label⟩ := labels t member
  have found : Reader.ofArray v (i : Nat) = .ok v[i] := entry_nat (by omega)
  rw [label, StateLabel.position, Outcome.ok_bind, found]
  exact ⟨_, rfl⟩

end Choices

namespace Model

variable {m : Model α} (listed : m.Listed) {goal : Goal α} {discount : α} (known : goal.discount = .ok discount)
  {v : Array α} (room : m.stateCount ≤ v.size)

include listed known room

theorem actionValue_exists {s k : Nat} (inside : s < m.stateCount)
    (count : m.actionCount (s : Nat) = .ok (k : Int)) {a : Int}
    (first : 0 ≤ a) (last : a < k) : ∃ q, m.actionValue goal (s : Nat) a (Reader.ofArray v) = .ok q := by
  obtain ⟨k', count', each⟩ := listed s inside
  have same : (k' : Int) = k := Except.ok.inj (count'.symm.trans count)
  obtain ⟨ts, found, labels⟩ := each a.toNat (by omega)
  rw [Int.toNat_of_nonneg first] at found
  rw [actionValue, known, Outcome.ok_bind, found, Outcome.ok_bind]
  exact backup_exists room discount labels

theorem greedyChoice_exists {s : Nat} (inside : s < m.stateCount) (acts : m.actionCount (s : Nat) ≠ .ok 0) :
    ∃ choice, m.greedyChoice goal (s : Nat) (Reader.ofArray v) = .ok choice := by
  obtain ⟨k, count, _⟩ := listed s inside
  have positive : 0 < k := Nat.pos_of_ne_zero fun none => acts (by rw [count, none]; rfl)
  rw [greedyChoice, positiveCount_ok positive count, Outcome.ok_bind]
  refine Outcome.foldlM_exists (fun best a member => ?_) _
  have below := List.mem_range.mp member
  obtain ⟨q, value⟩ := actionValue_exists listed known room inside count (a := (a : Nat)) (by omega) (by omega)
  rw [value]
  exact ⟨_, rfl⟩

theorem greedyChoice_error {s : Nat} (inside : s < m.stateCount) {e : Failure α}
    (failed : m.greedyChoice goal (s : Nat) (Reader.ofArray v) = .error e) :
    m.actionCount (s : Nat) = .ok 0 ∧ e = .emptyActionSet s := by
  have none : m.actionCount (s : Nat) = .ok 0 := by
    by_contra acts
    obtain ⟨_, chosen⟩ := greedyChoice_exists listed known room inside acts
    cases failed.symm.trans chosen
  rw [greedyChoice, positiveCount, none] at failed
  exact ⟨none, (Except.error.inj failed).symm⟩

end Model

theorem Model.columns_choice {m : Model α} (listed : m.Listed)
    (acts : ∀ s < m.stateCount, m.actionCount (s : Nat) ≠ .ok 0)
    (columnar : m.Columnar) {goal : Goal α} {discount : α} (known : goal.discount = .ok discount) (read : Reader α) :
    ∀ f, m = .flat f → ∀ s < m.stateCount, f.greedyChoice discount s read = m.greedyChoice goal (s : Nat) read := by
  rintro f rfl s inside
  obtain ⟨k, count, each⟩ := listed s inside
  have positive : 0 < k := Nat.pos_of_ne_zero fun none => acts s inside (by rw [count, none]; rfl)
  exact f.greedyChoice_eq columnar known read positive count fun a within => by
    obtain ⟨ts, found, _⟩ := each a within
    exact ⟨ts, found⟩

def Policy.Plays (policy : Policy α) (m : Model α) (t : Int) : Prop :=
  ∀ s < m.stateCount, ∃ choices, policy.distribution (s : Nat) t = .ok choices ∧
    ∀ c ∈ choices, ∃ k : Nat, m.actionCount (s : Nat) = .ok (k : Int) ∧ 0 ≤ c.1 ∧ c.1 < k

theorem Model.policyValue_exists {m : Model α} (listed : m.Listed) {goal : Goal α} {discount : α}
    (known : goal.discount = .ok discount) {v : Array α} (room : m.stateCount ≤ v.size) {policy : Policy α} {t : Int}
    {s : Nat} (inside : s < m.stateCount) {choices : List (Int × α)}
    (taken : policy.distribution (s : Nat) t = .ok choices)
    (each : ∀ c ∈ choices, ∃ k : Nat, m.actionCount (s : Nat) = .ok (k : Int) ∧ 0 ≤ c.1 ∧ c.1 < k) :
    ∃ value, m.policyValue goal t (s : Nat) policy (Reader.ofArray v) = .ok value := by
  rw [policyValue, taken, Outcome.ok_bind]
  refine Outcome.foldlM_exists (fun total c member => ?_) _
  obtain ⟨k, count, first, last⟩ := each c member
  obtain ⟨q, value⟩ := actionValue_exists listed known room inside count first last
  dsimp only
  rw [value]
  exact ⟨_, rfl⟩

theorem Policy.Plays.value_exists {m : Model α} {policy : Policy α} {t : Int} (plays : policy.Plays m t)
    (listed : m.Listed) {goal : Goal α} {discount : α} (known : goal.discount = .ok discount) {v : Array α}
    (room : m.stateCount ≤ v.size) {s : Nat} (inside : s < m.stateCount) :
    ∃ value, m.policyValue goal t (s : Nat) policy (Reader.ofArray v) = .ok value := by
  obtain ⟨choices, taken, each⟩ := plays s inside
  exact m.policyValue_exists listed known room inside taken each

def SweepMemory.choiceStep {σ : Type} (mem : SweepMemory σ α) (m : Model α) (goal : Goal α) (discount : α) :
    Nat → InPlace σ α Unit :=
  match m with
  | .table t => mem.bellmanStep t goal
  | .flat f => mem.flatStep f discount

section Steps

variable {σ : Type} {mem : SweepMemory σ α} {n : Nat} {v : Array α} {valid : σ → Prop}
  {setValue : Nat → α → σ → σ} {setAction : Nat → Int → σ → σ}

theorem SweepMemory.Keeps.choiceStep_runOn {m : Model α} (keeps : mem.Keeps m.stateCount v valid setValue setAction)
    (listed : m.Listed) (acts : ∀ s < m.stateCount, m.actionCount (s : Nat) ≠ .ok 0) (columnar : m.Columnar)
    {goal : Goal α} {discount : α} (known : goal.discount = .ok discount) (room : m.stateCount ≤ v.size) :
    ∃ choice : Nat → Choice α, (∀ s < m.stateCount, m.greedyChoice goal (s : Nat) (Reader.ofArray v) = .ok (choice s)) ∧
      ∀ s ∈ List.range m.stateCount, ∀ x, valid x → (mem.choiceStep m goal discount s).runOn x
          = (.ok (), setAction s (choice s).2 (setValue s (choice s).1 x)) ∧
        valid (setAction s (choice s).2 (setValue s (choice s).1 x)) := by
  have : Nonempty (Choice α) := ⟨Choice.none⟩
  choose! choice chosen using fun s (inside : s < m.stateCount) =>
    m.greedyChoice_exists listed known room inside (acts s inside)
  refine ⟨choice, chosen, fun s member x ready => ?_⟩
  have inside := List.mem_range.mp member
  cases m with
  | table t => exact keeps.choose_runOn inside ready (chosen s inside)
  | flat f =>
    have columns := Model.columns_choice listed acts columnar known (Reader.ofArray v) f rfl s inside
    exact keeps.choose_runOn inside ready (columns.trans (chosen s inside))

theorem SweepMemory.Keeps.policyStep_runOn {m : Model α} (keeps : mem.Keeps m.stateCount v valid setValue setAction)
    (listed : m.Listed) {goal : Goal α} {discount : α} (known : goal.discount = .ok discount)
    (room : m.stateCount ≤ v.size) {policy : Policy α} {t : Int} (plays : policy.Plays m t) :
    ∃ value : Nat → α, (∀ s < m.stateCount, m.policyValue goal t (s : Nat) policy (Reader.ofArray v) = .ok (value s)) ∧
      ∀ s ∈ List.range m.stateCount, ∀ x, valid x →
        (mem.policyStep m goal t policy s).runOn x = (.ok (), setValue s (value s) x) ∧
          valid (setValue s (value s) x) := by
  have : Nonempty α := ⟨Scalar.zero⟩
  choose! value followed using fun s (inside : s < m.stateCount) => plays.value_exists listed known room inside
  refine ⟨value, followed, fun s member x ready => ?_⟩
  have inside := List.mem_range.mp member
  obtain ⟨stored, after⟩ := keeps.value s inside (value s) x ready
  have evaluated : (InPlace.lift (m.policyValue goal t s policy (mem.value x)) : InPlace σ α α).runOn x
      = (.ok (value s), x) := by
    rw [InPlace.runOn_lift, keeps.reads x ready, followed s inside]
  refine ⟨?_, after⟩
  rw [SweepMemory.policyStep, InPlace.runOn_bind_ok (InPlace.runOn_get x), InPlace.runOn_bind_ok evaluated,
    InPlace.runOn_update stored]

end Steps

section Shared

namespace Storage

-- Memory that callers own: values inside their buffer, room for what is written, and all of it apart.
structure Lanes (start : Storage α) (n : Nat) (values outValues outActions : View) : Prop where
  shape : values.shape = [n]
  inside : (start.reals values).cells.size = n
  roomValues : outValues.Holds n
  roomActions : outActions.Holds n
  real : start.isWhole outValues = false
  apartValues : values.Apart outValues
  apartActions : values.Apart outActions
  separate : outValues.Apart outActions

def choiceStep (before : Storage α) (m : Model α) (goal : Goal α) (discount : α) (values outValues outActions : View) :
    Nat → InPlace (Storage α) α Unit :=
  match m with
  | .table _ => (checkedMemory values outValues outActions).choiceStep m goal discount
  | .flat _ => (rawMemory (before.realSource values) outValues outActions).choiceStep m goal discount

def policyStep (m : Model α) (goal : Goal α) (t : Int) (policy : Policy α) (values outValues : View) :
    Nat → InPlace (Storage α) α Unit :=
  (checkedMemory values outValues outValues).policyStep m goal t policy

variable {start : Storage α} {m : Model α} {values outValues outActions : View}
  (lanes : start.Lanes m.stateCount values outValues outActions) (listed : m.Listed)
  {goal : Goal α} {discount : α} (known : goal.discount = .ok discount)

theorem flatSweep_vectors (f : FlatModel α) (discount : α)
    (vectors : areVectors [values, outValues, outActions] = true) :
    (flatSweep f discount values outValues outActions).runOn start = ((List.range f.stateCount).forM
      ((rawMemory (start.realSource values) outValues outActions).flatStep f discount)).runOn start := by
  rw [flatSweep, vectors]
  simp only [Bool.not_true, Bool.false_eq_true, if_false]
  exact InPlace.runOn_bind_ok (InPlace.runOn_get start)

include lanes

theorem Lanes.reads : Reads values outValues (start.reals values).cells start :=
  ⟨read_cells lanes.shape lanes.inside, lanes.real⟩

include listed known

-- The sweep that runs is one of the passes by workers, over flat arrays always the serial one.
theorem Lanes.bellmanSweep_settles (acts : ∀ s < m.stateCount, m.actionCount (s : Nat) ≠ .ok 0)
    (columnar : m.Columnar) :
    Crew.Settles m.stateCount (fun schedule => bellmanSweep m goal schedule values outValues outActions)
      (choiceStep start m goal discount values outValues outActions) start
      fun x => x.read values = start.read values := by
  have ready := lanes.reads
  have kept : ∀ x, Reads values outValues (start.reals values).cells x → x.read values = start.read values :=
    fun x stable => stable.reads.trans ready.reads.symm
  have room : m.stateCount ≤ (start.reals values).cells.size := lanes.inside.ge
  cases m with
  | table t =>
    have keeps : (checkedMemory values outValues outActions).Keeps t.stateCount (start.reals values).cells _ _ _ :=
      checkedMemory_keeps lanes.roomValues lanes.roomActions lanes.apartValues lanes.apartActions
    obtain ⟨choice, _, steps⟩ := keeps.choiceStep_runOn listed acts columnar known room
    have agrees (parts : List (List Nat)) (cover : parts.flatten.Perm (List.range t.stateCount)) :=
      Crew.agrees cover steps (fun s first t second other x => writes_comm lanes.roomValues lanes.roomActions
        lanes.separate (fun s => (choice s).1) (fun _ => 0) (fun s => (choice s).2) (fun s => Scalar.ofInt (choice s).2)
        (List.mem_range.mp first) (List.mem_range.mp second) other x) kept ready
    refine ⟨_, fun schedule parts cut => ⟨Schedule.chunks_flatten cut, ?_⟩, agrees⟩
    have chunked := (agrees parts (Schedule.chunks_flatten cut ▸ List.Perm.refl _)).chunked
    exact (InPlace.runOn_bind_ok (congrArg (·, _) cut)).trans chunked
  | flat f =>
    have source : ∀ x, Reads values outValues (start.reals values).cells x →
        start.realSource values x = Reader.ofArray (start.reals values).cells := fun x stable => by
      unfold realSource
      split
      · exact ready.reads
      · exact stable.reads
    have keeps := rawMemory_keeps source lanes.roomValues lanes.roomActions lanes.apartValues lanes.apartActions
    obtain ⟨choice, _, steps⟩ := keeps.choiceStep_runOn listed acts columnar known room
    have agrees (parts : List (List Nat)) (cover : parts.flatten.Perm (List.range f.stateCount)) :=
      Crew.agrees cover steps (fun s first t second other x => writes_comm lanes.roomValues lanes.roomActions
        lanes.separate (fun s => (choice s).1) (fun _ => 0) (fun s => (choice s).2) (fun s => Scalar.ofInt (choice s).2)
        (List.mem_range.mp first) (List.mem_range.mp second) other x) kept ready
    refine ⟨_, fun schedule parts cut => ⟨Schedule.chunks_flatten cut, ?_⟩, agrees⟩
    obtain ⟨k, shape, _⟩ := lanes.roomValues
    obtain ⟨k', shape', _⟩ := lanes.roomActions
    have vectors : areVectors [values, outValues, outActions] = true := by
      simp [areVectors, View.isVector, lanes.shape, shape, shape']
    have serial := (agrees parts (Schedule.chunks_flatten cut ▸ List.Perm.refl _)).serial
    exact (InPlace.runOn_bind_ok (congrArg (·, _) known)).trans ((flatSweep_vectors f discount vectors).trans serial)

theorem Lanes.policySweep_settles {policy : Policy α} {t : Int} (plays : policy.Plays m t) :
    Crew.Settles m.stateCount (fun schedule => policySweep m goal t policy schedule values outValues)
      (policyStep m goal t policy values outValues) start fun x => x.read values = start.read values := by
  have ready := lanes.reads
  have keeps : (checkedMemory values outValues outValues).Keeps m.stateCount (start.reals values).cells _ _ _ :=
    checkedMemory_keeps lanes.roomValues lanes.roomValues lanes.apartValues lanes.apartValues
  obtain ⟨value, _, steps⟩ := keeps.policyStep_runOn listed known lanes.inside.ge plays
  have agrees (parts : List (List Nat)) (cover : parts.flatten.Perm (List.range m.stateCount)) :=
    Crew.agrees cover steps (fun s _ t _ other x => putCell_comm_cells other)
      (fun x stable => stable.reads.trans ready.reads.symm) ready
  refine ⟨_, fun schedule parts cut => ⟨Schedule.chunks_flatten cut, ?_⟩, agrees⟩
  have chunked := (agrees parts (Schedule.chunks_flatten cut ▸ List.Perm.refl _)).chunked
  exact (InPlace.runOn_bind_ok (congrArg (·, _) cut)).trans chunked

end Storage

end Shared

end MarkovDecision
