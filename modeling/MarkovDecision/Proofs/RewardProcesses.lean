import MarkovDecision.Proofs.CopiedModel
import MarkovDecision.Proofs.PolicyRefusals
import MarkovDecision.Proofs.SparseRows
import MarkovDecision.RewardProcess

namespace MarkovDecision

variable {α β γ : Type}

def Model.Listed (m : Model α) : Prop := ∀ s < m.stateCount, ∃ k : Nat, m.actionCount (s : Nat) = .ok (k : Int) ∧
  ∀ a < k, ∃ ts, m.transitions (s : Nat) (a : Nat) = .ok ts ∧ ∀ t ∈ ts, t.next.Inside m.stateCount

theorem Model.Listed.counted {m : Model α} (listed : m.Listed) :
    ∀ s < m.stateCount, ∃ k : Nat, m.actionCount (s : Nat) = .ok (k : Int) := by
  intro s inside
  obtain ⟨k, count, _⟩ := listed s inside
  exact ⟨k, count⟩

section Described

variable {n : Nat} {K : Type} [Field K] [LinearOrder K] [FloorRing K] {m : Model (Extended K)} {P : Process n K}

theorem Model.Describes.listed (described : m.Describes P) : m.Listed := by
  intro s inside
  rw [described.states] at inside ⊢
  refine ⟨_, described.actions ⟨s, inside⟩, fun a within => ?_⟩
  obtain ⟨ts, known, reads⟩ := described.outcomes ⟨s, inside⟩ ⟨a, within⟩
  refine ⟨ts, known, fun t member => ?_⟩
  obtain ⟨b, _, read⟩ := exists_left_of_forall₂ (List.Forall₂.flip (R := flip Transition.Reads) reads) t member
  exact ⟨b.next, b.next.isLt, read.next⟩

theorem reads_nodup {ts : List (Transition (Extended K))} {bs : List (Branch n K)}
    (reads : List.Forall₂ Transition.Reads ts bs) : (ts.map (·.next)).Nodup ↔ (bs.map Branch.next).Nodup := by
  have labels : ts.map (·.next) = (bs.map Branch.next).map fun j : Fin n => StateLabel.index ((j : Nat) : Int) := by
    rw [List.map_map, ← List.forall₂_eq_eq_eq, List.forall₂_map_left_iff, List.forall₂_map_right_iff]
    exact reads.imp fun _ _ read => read.next
  rw [labels]
  refine ⟨List.Nodup.of_map _, fun distinct => distinct.map fun i j same => Fin.ext ?_⟩
  simpa using same

theorem reads_probabilities {ts : List (Transition (Extended K))} {bs : List (Branch n K)}
    (reads : List.Forall₂ Transition.Reads ts bs) :
    ts.map (·.probability.value) = bs.map fun b => .finite b.probability := by
  rw [← List.forall₂_eq_eq_eq, List.forall₂_map_left_iff, List.forall₂_map_right_iff]
  exact reads.imp fun _ _ read => read.probability

theorem Model.Describes.acts (described : m.Describes P) :
    ∀ s < m.stateCount, m.actionCount (s : Nat) ≠ .ok 0 := by
  intro s inside none
  rw [described.states] at inside
  rw [described.actions ⟨s, inside⟩] at none
  have positive := P.hasAction ⟨s, inside⟩
  have zero : (P.actionCount ⟨s, inside⟩ : Int) = 0 := Except.ok.inj none
  omega

end Described

section Folding

variable [Scalar α] {step : β → StateLabel → α → α → Outcome α β}

namespace Model

theorem foldAction_map {φ : β → γ} {step' : γ → StateLabel → α → α → Outcome α γ} {k : StateLabel → Prop}
    (same : ∀ acc label p r, k label → step' (φ acc) label p r = (step acc label p r).map φ) (s a : Int)
    (weight : α) {ts : List (Transition α)} (labels : ∀ t ∈ ts, k t.next) (acc : β) (seen : List StateLabel) :
    foldAction s a weight step' (φ acc) seen ts = (foldAction s a weight step acc seen ts).map φ := by
  induction ts generalizing acc seen with
  | nil => rfl
  | cons t rest ih =>
    obtain ⟨here, later⟩ := List.forall_mem_cons.mp labels
    rw [foldAction, foldAction, same _ _ _ _ here]
    cases t.next.comparable with
    | false => rfl
    | true =>
      cases seen.any t.next.same with
      | true => rfl
      | false =>
        cases step acc t.next (weight * t.probability.value) t.reward.value with
        | error e => rfl
        | ok acc => exact ih later acc (t.next :: seen)

theorem foldOutcomes_map {φ : β → γ} {step' : γ → StateLabel → α → α → Outcome α γ} {k : StateLabel → Prop}
    (same : ∀ acc label p r, k label → step' (φ acc) label p r = (step acc label p r).map φ)
    {m : Model α} {policy : Policy α} {s : Int}
    (labels : ∀ choices, policy.distribution s 0 = .ok choices → ∀ c ∈ choices, ∀ ts,
      m.transitions s c.1 = .ok ts → ∀ t ∈ ts, k t.next) (start : β) :
    m.foldOutcomes policy s step' (φ start) = (m.foldOutcomes policy s step start).map φ := by
  rw [foldOutcomes, foldOutcomes]
  cases listed : policy.distribution s 0 with
  | error e => rfl
  | ok choices =>
    have labels := labels choices listed
    rw [Outcome.ok_bind, Outcome.ok_bind]
    clear listed
    induction choices generalizing start with
    | nil => rfl
    | cons c rest ih =>
      obtain ⟨here, later⟩ := List.forall_mem_cons.mp labels
      rw [List.foldlM_cons, List.foldlM_cons]
      dsimp only
      cases known : m.transitions s c.1 with
      | error e => rfl
      | ok ts =>
        rw [Outcome.ok_bind, Outcome.ok_bind, foldAction_map same s c.1 c.2 (here ts known)]
        cases foldAction s c.1 c.2 step start [] ts with
        | error e => rfl
        | ok acc => exact ih acc later

theorem foldAction_keeps {keeps : β → Prop} {fits : Transition α → Prop} {s a : Int} {weight : α}
    (steps : ∀ acc t acc', keeps acc → fits t →
      step acc t.next (weight * t.probability.value) t.reward.value = .ok acc' → keeps acc')
    {ts : List (Transition α)} (all : ∀ t ∈ ts, fits t) {acc last : β} {seen : List StateLabel}
    (start : keeps acc) (done : foldAction s a weight step acc seen ts = .ok last) : keeps last := by
  induction ts generalizing acc seen with
  | nil =>
    cases done
    exact start
  | cons t rest ih =>
    obtain ⟨here, later⟩ := List.forall_mem_cons.mp all
    rw [foldAction] at done
    obtain ⟨_, done⟩ := Outcome.unless_ok.mp done
    obtain ⟨_, done⟩ := Outcome.unless_ok.mp done
    obtain ⟨next, stepped, done⟩ := Outcome.bind_ok.mp done
    exact ih later (steps acc t next start here stepped) done

theorem seen_index {i : Int} {seen : List StateLabel} (indexed : ∀ l ∈ seen, ∃ j, l = .index j) :
    seen.any (StateLabel.index i).same = true ↔ StateLabel.index i ∈ seen := by
  rw [List.any_eq_true]
  constructor
  · rintro ⟨l, member, same⟩
    obtain ⟨j, rfl⟩ := indexed l member
    have equal : i = j := by
      simpa [StateLabel.same, StateLabel.literal, Literal.sameLabel, Literal.equalsInt] using same
    rwa [equal]
  · intro member
    exact ⟨_, member, by simp [StateLabel.same, StateLabel.literal, Literal.sameLabel, Literal.equalsInt]⟩

-- With steps that never fail, a walk through one action is stopped by a next state seen before, and by
-- nothing else.
theorem foldAction_repeats (total : ∀ acc label p r, ∃ acc', step acc label p r = .ok acc') (s a : Int) (weight : α)
    {ts : List (Transition α)} (indexed : ∀ t ∈ ts, ∃ i, t.next = .index i) (acc : β) {seen : List StateLabel}
    (before : ∀ l ∈ seen, ∃ i, l = .index i) (distinct : seen.Nodup) :
    ((ts.map (·.next) ++ seen).Nodup ∧ ∃ acc', foldAction s a weight step acc seen ts = .ok acc') ∨
      (¬(ts.map (·.next) ++ seen).Nodup ∧
        ∃ l, foldAction s a weight step acc seen ts = .error (.repeatedTransition s a l)) := by
  induction ts generalizing acc seen with
  | nil => exact Or.inl ⟨distinct, acc, rfl⟩
  | cons t rest ih =>
    obtain ⟨⟨i, named⟩, later⟩ := List.forall_mem_cons.mp indexed
    have comparable : t.next.comparable = true := by rw [named]; rfl
    rw [foldAction, comparable, named]
    by_cases member : StateLabel.index i ∈ seen
    · rw [(seen_index before).mpr member]
      refine Or.inr ⟨fun all => ?_, _, rfl⟩
      rw [List.map_cons, named, List.cons_append, List.nodup_cons] at all
      exact all.1 (List.mem_append_right _ member)
    · have unseen : seen.any (StateLabel.index i).same = false :=
        Bool.eq_false_iff.mpr fun found => member ((seen_index before).mp found)
      obtain ⟨acc', stepped⟩ := total acc (.index i) (weight * t.probability.value) t.reward.value
      -- the label moves from the outcomes to come to those seen before
      have moved : ((t :: rest).map (·.next) ++ seen).Nodup ↔ (rest.map (·.next) ++ .index i :: seen).Nodup := by
        rw [List.map_cons, named, List.cons_append]
        exact List.perm_middle.symm.nodup_iff
      rw [unseen, moved, stepped]
      exact ih later acc' (List.forall_mem_cons.mpr ⟨⟨i, rfl⟩, before⟩) (List.nodup_cons.mpr ⟨member, distinct⟩)

end Model

end Folding

abbrev Collected (n : Nat) (α : Type) : Type := List (Fin n × α) × α

def StateLabel.state? (n : Nat) (label : StateLabel) : Option (Fin n) :=
  label.place?.bind fun i => if inside : 0 ≤ i ∧ i < n then some ⟨i.toNat, by omega⟩ else none

theorem StateLabel.Inside.state {n : Nat} {label : StateLabel} (inside : label.Inside n) :
    ∃ j : Fin n, label = .index ((j : Nat) : Int) ∧ label.state? n = some j := by
  obtain ⟨i, below, rfl⟩ := inside
  refine ⟨⟨i, below⟩, rfl, ?_⟩
  rw [StateLabel.state?, StateLabel.place?, Option.bind_some, dif_pos ⟨by omega, by omega⟩]
  rfl

namespace Collected

variable [Scalar α] {n : Nat}

def gather (acc : Collected n α) (label : StateLabel) (p r : α) : Outcome α (Collected n α) :=
  .ok (match label.state? n with
    | some j => (acc.1 ++ [(j, p)], acc.2 + p * r)
    | none => acc)

def denseRow (entries : List (Fin n × α)) : Array α :=
  entries.foldl (fun row e => row.setIfInBounds (e.1 : Nat) (row.getD (e.1 : Nat) Scalar.zero + e.2))
    (Array.replicate n Scalar.zero)

def sparseEntries (entries : List (Fin n × α)) : List (Nat × α) := entries.map fun e => ((e.1 : Nat), e.2)

def cell (entries : List (Fin n × α)) (j : Nat) : α :=
  entries.foldl (fun x e => if (e.1 : Nat) = j then x + e.2 else x) Scalar.zero

theorem denseRow_append (entries : List (Fin n × α)) (j : Fin n) (p : α) : denseRow (entries ++ [(j, p)])
    = (denseRow entries).setIfInBounds (j : Nat) ((denseRow entries).getD (j : Nat) Scalar.zero + p) := by
  rw [denseRow, List.foldl_append]
  rfl

theorem cell_append (entries : List (Fin n × α)) (j : Fin n) (p : α) (i : Nat) : cell (entries ++ [(j, p)]) i
    = if (j : Nat) = i then cell entries i + p else cell entries i := by
  rw [cell, List.foldl_append]
  rfl

theorem denseRow_cells (entries : List (Fin n × α)) :
    (denseRow entries).size = n ∧ ∀ j < n, (denseRow entries)[j]? = some (cell entries j) := by
  induction entries using List.reverseRecOn with
  | nil => exact ⟨Array.size_replicate, fun j inside => by simp [denseRow, cell, inside]⟩
  | append_singleton entries e ih =>
    obtain ⟨size, cells⟩ := ih
    obtain ⟨i, p⟩ := e
    rw [denseRow_append]
    refine ⟨by rw [Array.size_setIfInBounds, size], fun j inside => ?_⟩
    rw [cell_append, Array.getElem?_setIfInBounds, cells j inside]
    by_cases here : (i : Nat) = j
    · rw [if_pos here, if_pos (by omega), if_pos here, Array.getD_eq_getD_getElem?, cells i i.isLt, here,
        Option.getD_some]
    · rw [if_neg here, if_neg here]

theorem sparseRow_cells (neutral : ∀ x : α, Scalar.zero + x = x) (entries : List (Fin n × α)) :
    (SparseRow.ofEntries (sparseEntries entries)).Pairwise (·.1 < ·.1) ∧
      ∀ j, (SparseRow.ofEntries (sparseEntries entries)).get j = cell entries j := by
  induction entries using List.reverseRecOn with
  | nil => exact ⟨List.Pairwise.nil, fun _ => rfl⟩
  | append_singleton entries e ih =>
    obtain ⟨sorted, cells⟩ := ih
    obtain ⟨i, p⟩ := e
    have grown : SparseRow.ofEntries (sparseEntries (entries ++ [(i, p)]))
        = SparseRow.add i p (SparseRow.ofEntries (sparseEntries entries)) := by
      rw [sparseEntries, List.map_append, SparseRow.ofEntries, List.foldl_append]
      rfl
    rw [grown]
    refine ⟨(SparseRow.add_sorted i p _ sorted).1, fun j => ?_⟩
    rw [SparseRow.get_add neutral i p sorted, cells, cells, cell_append]
    by_cases here : (i : Nat) = j
    · rw [if_pos here, if_pos here, here]
    · rw [if_neg here, if_neg here]

theorem rowOf?_sparse (entries : List (Fin n × α)) : SparseMatrix.rowOf? n
    (entries.map fun e => (some ((e.1 : Nat) : Int), e.2)) = some (SparseRow.ofEntries (sparseEntries entries)) := by
  rw [SparseMatrix.rowOf?, List.mapM_map, Outcome.mapM_some (g := fun e => ((e.1 : Nat), e.2))]
  · rfl
  · intro e _
    simp only [Function.comp_apply, Option.bind_eq_bind, Option.bind_some]
    rw [if_pos (by simp)]
    rfl

end Collected

namespace RewardProcess

variable [Scalar α] {m : Model α}

def Leads (m : Model α) (policy : Policy α) (s : Nat) : Prop :=
  ∀ choices, policy.distribution s 0 = .ok choices → ∀ c ∈ choices, ∀ ts,
    m.transitions s c.1 = .ok ts → ∀ t ∈ ts, t.next.Inside m.stateCount

def collected (m : Model α) (policy : Policy α) (s : Nat) : Outcome α (Collected m.stateCount α) :=
  m.foldOutcomes policy s Collected.gather ([], Scalar.zero)

theorem row_collected {policy : Policy α} {s : Nat} (leads : Leads m policy s) :
    row m policy s = (collected m policy s).map fun x => (Collected.denseRow x.1, x.2) := by
  refine Model.foldOutcomes_map (k := StateLabel.Inside m.stateCount)
    (φ := fun x : Collected m.stateCount α => (Collected.denseRow x.1, x.2)) (fun acc label p r inside => ?_) leads
    ([], Scalar.zero)
  obtain ⟨j, rfl, known⟩ := inside.state
  have place : indexFrom (Collected.denseRow acc.1).size ((j : Nat) : Int) = some (j : Nat) := by
    rw [(Collected.denseRow_cells acc.1).1, indexFrom, if_pos (Int.natCast_nonneg _), if_pos (by omega)]
    rfl
  rw [addOutcome, Collected.gather, known]
  simp only [StateLabel.position, Outcome.ok_bind, place, Outcome.map_ok, Collected.denseRow_append,
    Outcome.pure_eq]

end RewardProcess

theorem SparseRewardProcess.row_collected [Scalar α] {m : Model α} {policy : Policy α} {s : Nat}
    (leads : RewardProcess.Leads m policy s) : row m policy s = (RewardProcess.collected m policy s).map
      fun x => (x.1.map fun e => (some ((e.1 : Nat) : Int), e.2), x.2) := by
  refine Model.foldOutcomes_map (k := StateLabel.Inside m.stateCount)
    (φ := fun x : Collected m.stateCount α => (x.1.map fun e => (some ((e.1 : Nat) : Int), e.2), x.2))
    (fun acc label p r inside => ?_) leads ([], Scalar.zero)
  obtain ⟨j, rfl, known⟩ := inside.state
  rw [addOutcome, Collected.gather, known, Outcome.map_ok, List.map_append]
  rfl

def Model.Repeats (m : Model α) (s : Nat) (a : Int) : Prop :=
  ∃ ts, m.transitions (s : Nat) a = .ok ts ∧ ¬(ts.map (·.next)).Nodup

namespace RewardProcess

section Walk

variable [Scalar α] {m : Model α} {step : β → StateLabel → α → α → Outcome α β} {s : Nat}

theorem walk_repeats (total : ∀ acc label p r, ∃ acc', step acc label p r = .ok acc') {choices : List (Int × α)}
    (known : ∀ c ∈ choices, ∃ ts, m.transitions (s : Nat) c.1 = .ok ts ∧ ∀ t ∈ ts, ∃ i, t.next = .index i) (acc : β) :
    ((∀ c ∈ choices, ¬m.Repeats s c.1) ∧ ∃ last, choices.foldlM (fun acc (a, weight) => do
      Model.foldAction (s : Nat) a weight step acc [] (← m.transitions (s : Nat) a)) acc = .ok last) ∨
    ∃ c ∈ choices, m.Repeats s c.1 ∧ ∃ l, choices.foldlM (fun acc (a, weight) => do
      Model.foldAction (s : Nat) a weight step acc [] (← m.transitions (s : Nat) a)) acc
        = .error (.repeatedTransition (s : Nat) c.1 l) := by
  induction choices generalizing acc with
  | nil => exact Or.inl ⟨by simp, acc, rfl⟩
  | cons c rest ih =>
    obtain ⟨⟨ts, here, indexed⟩, later⟩ := List.forall_mem_cons.mp known
    have repeats : m.Repeats s c.1 ↔ ¬(ts.map (·.next)).Nodup := by
      constructor
      · rintro ⟨us, there, twice⟩
        rw [here] at there
        cases there
        exact twice
      · exact fun twice => ⟨ts, here, twice⟩
    have first := Model.foldAction_repeats total (s : Nat) c.1 c.2 indexed acc (by simp) List.nodup_nil
    rw [List.append_nil] at first
    rw [List.foldlM_cons]
    dsimp only
    rw [here, Outcome.ok_bind]
    rcases first with ⟨once, acc', done⟩ | ⟨twice, l, stopped⟩
    · rw [done, Outcome.ok_bind]
      have fresh : ¬m.Repeats s c.1 := fun twice => repeats.mp twice once
      rcases ih later acc' with ⟨none, last, ended⟩ | ⟨c', member, twice, l, stopped⟩
      · exact Or.inl ⟨List.forall_mem_cons.mpr ⟨fresh, none⟩, last, ended⟩
      · exact Or.inr ⟨c', List.mem_cons_of_mem c member, twice, l, stopped⟩
    · rw [stopped, Outcome.error_bind]
      exact Or.inr ⟨c, List.mem_cons_self, repeats.mpr twice, l, rfl⟩

end Walk

variable [Scalar α] {m : Model α} {p : Policy α} {s : Nat}

theorem leads_of_valid (listed : m.Listed) (valid : p.validate m none = .ok ()) (stationary : p.isStationary = true)
    (inside : s < m.stateCount) : Leads m p s := by
  intro choices known c member ts read
  obtain ⟨k, count, each⟩ := listed s inside
  rcases p.chooses valid stationary inside count with ⟨_, choices', chooses⟩ | ⟨_, failed⟩
  · rw [chooses.listed] at known
    cases known
    obtain ⟨a, below, same⟩ := chooses.valid c member
    obtain ⟨us, there, labels⟩ := each a below
    rw [same, there] at read
    cases read
    exact labels
  · rw [failed] at known
    cases known

-- What becomes of a state under an accepted policy: weights that cannot be read, an action that repeats a
-- next state, or a collection.
inductive Fate (m : Model α) (p : Policy α) (s : Nat) : Prop where
  | unread (unreadable : ¬p.Readable s) (failed : collected m p s = .error .invalidInput)
  | repeated (readable : p.Readable s) (a : Int) (taken : p.Takes s a) (twice : m.Repeats s a)
      (failed : ∃ l, collected m p s = .error (.repeatedTransition (s : Nat) a l))
  | kept (readable : p.Readable s) (once : ¬∃ a, p.Takes s a ∧ m.Repeats s a) (done : ∃ x, collected m p s = .ok x)

theorem fate (listed : m.Listed) (valid : p.validate m none = .ok ()) (stationary : p.isStationary = true)
    (inside : s < m.stateCount) : Fate m p s := by
  obtain ⟨k, count, each⟩ := listed s inside
  rcases p.chooses valid stationary inside count with ⟨readable, choices, chooses⟩ | ⟨unreadable, failed⟩
  · have known : ∀ c ∈ choices, ∃ ts, m.transitions (s : Nat) c.1 = .ok ts ∧ ∀ t ∈ ts, ∃ i, t.next = .index i := by
      intro c member
      obtain ⟨a, below, same⟩ := chooses.valid c member
      obtain ⟨ts, there, labels⟩ := each a below
      refine ⟨ts, by rw [same, there], fun t inTs => ?_⟩
      obtain ⟨i, _, named⟩ := labels t inTs
      exact ⟨i, named⟩
    have total (acc : Collected m.stateCount α) (label : StateLabel) (p r : α) :
        ∃ acc', Collected.gather acc label p r = .ok acc' := ⟨_, rfl⟩
    have opening : collected m p s = choices.foldlM (fun acc (a, weight) => do
        Model.foldAction (s : Nat) a weight Collected.gather acc [] (← m.transitions (s : Nat) a))
        ([], Scalar.zero) := by
      rw [collected, Model.foldOutcomes, chooses.listed, Outcome.ok_bind]
    rcases walk_repeats total known ([], Scalar.zero) with ⟨none, last, done⟩ | ⟨c, member, twice, l, stopped⟩
    · refine .kept readable (fun ⟨a, takes, twice⟩ => ?_) ⟨last, opening.trans done⟩
      obtain ⟨weight, member⟩ := (chooses.taken a).mpr takes
      exact none _ member twice
    · exact .repeated readable c.1 ((chooses.taken c.1).mp ⟨c.2, member⟩) twice ⟨l, opening.trans stopped⟩
  · refine .unread unreadable ?_
    rw [collected, Model.foldOutcomes, failed, Outcome.error_bind]

def collectedRows (m : Model α) (given : PolicyData α) : Outcome α (List (Collected m.stateCount α)) := do
  let policy ← stationaryPolicy m given
  (List.range m.stateCount).mapM (collected m policy)

def ofRows {n : Nat} (rows : List (Collected n α)) : RewardProcess α :=
  ⟨(rows.map fun x => Collected.denseRow x.1).toArray, (rows.map (·.2)).toArray⟩

theorem ofPolicy_collected (listed : m.Listed) (given : PolicyData α) :
    ofPolicy m given = (collectedRows m given).map ofRows := by
  rw [ofPolicy, collectedRows]
  cases accepted : stationaryPolicy m given with
  | error e => rfl
  | ok p =>
    obtain ⟨_, valid, stationary⟩ := stationaryPolicy_ok.mp accepted
    rw [Outcome.ok_bind, Outcome.ok_bind, Outcome.mapM_map fun s member =>
      row_collected (leads_of_valid listed valid stationary (List.mem_range.mp member))]
    cases (List.range m.stateCount).mapM (collected m p) with
    | error e => rfl
    | ok rows =>
      simp only [Outcome.map_ok, Outcome.ok_bind, List.map_map, Outcome.pure_eq]
      rfl

end RewardProcess

namespace SparseRewardProcess

variable [Scalar α] {m : Model α}

def ofRows {n : Nat} (rows : List (Collected n α)) : SparseRewardProcess α :=
  ⟨⟨n, rows.map fun x => SparseRow.ofEntries (Collected.sparseEntries x.1)⟩, (rows.map (·.2)).toArray⟩

theorem ofPolicy_collected (listed : m.Listed) (given : PolicyData α) :
    ofPolicy m given = (RewardProcess.collectedRows m given).map ofRows := by
  rw [ofPolicy, RewardProcess.collectedRows]
  cases accepted : stationaryPolicy m given with
  | error e => rfl
  | ok p =>
    obtain ⟨_, valid, stationary⟩ := stationaryPolicy_ok.mp accepted
    rw [Outcome.ok_bind, Outcome.ok_bind, Outcome.mapM_map fun s member =>
      row_collected (RewardProcess.leads_of_valid listed valid stationary (List.mem_range.mp member))]
    cases (List.range m.stateCount).mapM (RewardProcess.collected m p) with
    | error e => rfl
    | ok rows =>
      have matrix : SparseMatrix.ofEntries? m.stateCount
          (rows.map fun x => x.1.map fun e => (some ((e.1 : Nat) : Int), e.2))
          = some ⟨m.stateCount, rows.map fun x => SparseRow.ofEntries (Collected.sparseEntries x.1)⟩ := by
        rw [SparseMatrix.ofEntries?, List.mapM_map,
          Outcome.mapM_some (g := fun x => SparseRow.ofEntries (Collected.sparseEntries x.1))
            fun x _ => Collected.rowOf?_sparse x.1, Option.map_some]
      simp only [Outcome.map_ok, Outcome.ok_bind, List.map_map, Outcome.pure_eq, Function.comp_def, matrix,
        Outcome.ofOption_some]
      rfl

end SparseRewardProcess

section Results

variable [Scalar α] {m : Model α} {given : PolicyData α} {p : Policy α} {e : Failure α}

structure RewardProcess.Agrees (n : Nat) (dense : RewardProcess α) (sparse : SparseRewardProcess α) : Prop where
  reward : dense.reward = sparse.reward
  states : dense.reward.size = n ∧ dense.transition.size = n ∧ sparse.transition.rows.length = n ∧
    sparse.transition.width = n
  cells : ∀ i < n, ∃ row entries, dense.transition[i]? = some row ∧ sparse.transition.rows[i]? = some entries ∧
    row.size = n ∧ ∀ j < n, row[j]? = some (entries.get j)

theorem rows_agree (neutral : ∀ x : α, Scalar.zero + x = x) {n : Nat} {rows : List (Collected n α)}
    (length : rows.length = n) :
    RewardProcess.Agrees n (RewardProcess.ofRows rows) (SparseRewardProcess.ofRows rows) := by
  refine ⟨rfl, ⟨?_, ?_, ?_, rfl⟩, fun i inside => ?_⟩
  · simp [RewardProcess.ofRows, length]
  · simp [RewardProcess.ofRows, length]
  · simp [SparseRewardProcess.ofRows, length]
  · have place : rows[i]? = some rows[i] := List.getElem?_eq_getElem (by omega)
    obtain ⟨size, cells⟩ := Collected.denseRow_cells rows[i].1
    refine ⟨Collected.denseRow rows[i].1, SparseRow.ofEntries (Collected.sparseEntries rows[i].1),
      by simp [RewardProcess.ofRows, place], by simp [SparseRewardProcess.ofRows, place], size, fun j below => ?_⟩
    rw [cells j below, (Collected.sparseRow_cells neutral rows[i].1).2 j]

theorem collectedRows_length {rows : List (Collected m.stateCount α)}
    (done : RewardProcess.collectedRows m given = .ok rows) : rows.length = m.stateCount := by
  obtain ⟨p, _, done⟩ := Outcome.bind_ok.mp done
  exact (Outcome.mapM_range_get done).1

theorem collectedRows_stopped (listed : m.Listed) (accepted : stationaryPolicy m given = .ok p)
    (failed : RewardProcess.collectedRows m given = .error e) :
    ∃ s < m.stateCount, (∀ r < s, p.Readable r) ∧ (e = .invalidInput ∧ ¬p.Readable s ∨
      e.kind = .structural ∧ p.Readable s ∧ ∃ a, p.Takes s a ∧ m.Repeats s a) := by
  obtain ⟨_, valid, stationary⟩ := stationaryPolicy_ok.mp accepted
  have fate (s : Nat) (inside : s < m.stateCount) := RewardProcess.fate listed valid stationary inside
  rw [RewardProcess.collectedRows, accepted, Outcome.ok_bind] at failed
  obtain ⟨s, inside, passed, stopped⟩ := Outcome.mapM_range_error.mp failed
  refine ⟨s, inside, fun r before => ?_, ?_⟩
  · obtain ⟨x, done⟩ := passed r before
    cases fate r (before.trans inside) with
    | unread _ failed => rw [failed] at done; cases done
    | repeated readable => exact readable
    | kept readable => exact readable
  · cases fate s inside with
    | unread unreadable failed =>
      rw [failed] at stopped
      exact Or.inl ⟨(Except.error.inj stopped).symm, unreadable⟩
    | repeated readable a taken twice failed =>
      obtain ⟨l, failed⟩ := failed
      rw [failed] at stopped
      cases stopped
      exact Or.inr ⟨rfl, readable, a, taken, twice⟩
    | kept _ _ done =>
      obtain ⟨x, done⟩ := done
      rw [done] at stopped
      cases stopped

theorem RewardProcess.collectedRows_failure (listed : m.Listed) (failed : collectedRows m given = .error e) :
    e.Refuses ∨ e.kind = .structural := by
  cases accepted : stationaryPolicy m given with
  | error e' =>
    rw [collectedRows, accepted, Outcome.error_bind] at failed
    cases failed
    exact Or.inl (stationaryPolicy_refuses listed.counted accepted)
  | ok p =>
    obtain ⟨_, _, _, ⟨rfl, _⟩ | ⟨structural, _⟩⟩ := collectedRows_stopped listed accepted failed
    · exact Or.inl (Or.inr rfl)
    · exact Or.inr structural

theorem collectedRows_structural (listed : m.Listed) (accepted : stationaryPolicy m given = .ok p) :
    (∃ e, RewardProcess.collectedRows m given = .error e ∧ e.kind = .structural) ↔
      ∃ s < m.stateCount, (∀ r ≤ s, p.Readable r) ∧ ∃ a, p.Takes s a ∧ m.Repeats s a := by
  constructor
  · rintro ⟨e, failed, kind⟩
    obtain ⟨s, inside, earlier, ⟨rfl, _⟩ | ⟨_, readable, twice⟩⟩ := collectedRows_stopped listed accepted failed
    · cases kind
    · exact ⟨s, inside, fun r upTo => upTo.lt_or_eq.elim (earlier r) fun same => same ▸ readable, twice⟩
  · rintro ⟨s, inside, readable, twice⟩
    -- the first state that takes such an action
    classical
    obtain ⟨_, valid, stationary⟩ := stationaryPolicy_ok.mp accepted
    have fate (s : Nat) (inside : s < m.stateCount) := RewardProcess.fate listed valid stationary inside
    obtain ⟨first, ⟨upTo, twice⟩, least⟩ := Nat.findX
      (p := fun r => r ≤ s ∧ ∃ a, p.Takes r a ∧ m.Repeats r a) ⟨s, le_refl s, twice⟩
    have below := upTo.trans_lt inside
    rw [RewardProcess.collectedRows, accepted, Outcome.ok_bind]
    cases fate first below with
    | unread unreadable => exact absurd (readable first upTo) unreadable
    | kept _ once => exact absurd twice once
    | repeated _ _ _ _ failed =>
      obtain ⟨l, failed⟩ := failed
      refine ⟨_, Outcome.mapM_range_error.mpr ⟨first, below, fun r before => ?_, failed⟩, rfl⟩
      cases fate r (before.trans below) with
      | unread unreadable => exact absurd (readable r (before.le.trans upTo)) unreadable
      | repeated _ a taken twice => exact absurd ⟨before.le.trans upTo, a, taken, twice⟩ (least r before)
      | kept _ _ done => exact done

end Results

theorem RewardProcess.ofPolicy_unmerged {n : Nat} {K : Type} [Field K] [LinearOrder K] [FloorRing K]
    {m : Model (Extended K)} {P : Process n K} (described : m.Describes P) (unmerged : P.Unmerged)
    {given : PolicyData (Extended K)} {e : Failure (Extended K)} (failed : ofPolicy m given = .error e) :
    e.kind ≠ .structural := by
  rw [ofPolicy_collected described.listed] at failed
  have stopped := Outcome.map_eq_error.mp failed
  cases accepted : stationaryPolicy m given with
  | error e' =>
    rw [collectedRows, accepted, Outcome.error_bind] at stopped
    cases stopped
    exact stationaryPolicy_failure described.listed.counted accepted
  | ok p =>
    obtain ⟨s, inside, _, ⟨rfl, _⟩ | ⟨_, readable, a, takes, ts, known, twice⟩⟩ :=
      collectedRows_stopped described.listed accepted stopped
    · rintro ⟨⟩
    · obtain ⟨_, valid, stationary⟩ := stationaryPolicy_ok.mp accepted
      have state : s < n := described.states ▸ inside
      have count := described.actions ⟨s, state⟩
      rcases p.chooses valid stationary inside count with ⟨_, choices, chooses⟩ | ⟨unreadable, _⟩
      · obtain ⟨weight, member⟩ := (chooses.taken a).mpr takes
        obtain ⟨i, below, same⟩ := chooses.valid _ member
        obtain rfl : a = ((i : Nat) : Int) := same
        obtain ⟨us, read, reads⟩ := described.outcomes ⟨s, state⟩ ⟨i, below⟩
        cases known.symm.trans read
        exact absurd ((reads_nodup reads).mpr (unmerged _ _)) twice
      · exact absurd readable unreadable

end MarkovDecision
