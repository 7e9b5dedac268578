import MarkovDecision.Proofs.Listings
import MarkovDecision.Proofs.MergedModel

namespace MarkovDecision

section Refused

variable {α : Type} [Scalar α]

theorem Model.Columned.copied {m : Model α} {rows : List (List (Columns α))} (columned : m.Columned rows)
    (merge : Bool) : ((∃ f, m.flatten merge = .ok f) ↔ FlatModel.Buildable (rows.map (List.map (Columns.kept merge)))) ∧
      ∀ e, m.flatten merge = .error e → e.kind = .structural := by
  rw [columned.flatten merge]
  rcases FlatModel.admissible_or_refused FlatModel.defaultTolerance (rows.map (List.map (Columns.kept merge))) with
    buildable | ⟨e, refused, structural⟩
  · obtain ⟨f, built, _⟩ := FlatModel.build_lists buildable.1 buildable.2
    refine ⟨⟨fun _ => buildable, fun _ => ⟨f, built⟩⟩, fun e failed => ?_⟩
    cases built.symm.trans failed
  · refine ⟨⟨?_, fun buildable => ?_⟩, fun e' failed => ?_⟩
    · rintro ⟨f, built⟩
      cases refused.symm.trans built
    · obtain ⟨f, built, _⟩ := FlatModel.build_lists buildable.1 buildable.2
      cases refused.symm.trans built
    · cases refused.symm.trans failed
      exact structural

end Refused

section Exact

variable {K : Type} [Field K] [LinearOrder K]

theorem StateLabel.column?_word {i : Int} (word : Literal.inWord i = true) : (StateLabel.index i).column? = some i :=
  if_pos word

theorem Model.Listed.chances [FloorRing K] {m : Model (Extended K)} (listed : m.Listed) (exact : m.Exact) (small : m.stateCount ≤ 2 ^ 63) :
    ∃ rows : List (List (List (Chance K))), m.Columned (rows.map (List.map Chance.columns)) := by
  have action {s a : Nat} {ts : List (Transition (Extended K))} (known : m.transitions (s : Nat) (a : Nat) = .ok ts)
      (inside : ∀ t ∈ ts, t.next.Inside m.stateCount) : ∃ es, columnsOf ts = .ok (Chance.columns es) := by
    have named : ∀ t ∈ ts, ∃ i, (Outcome.ofOption t.next.column? : Outcome (Extended K) Int) = .ok i := by
      intro t member
      obtain ⟨i, below, label⟩ := inside t member
      have word : Literal.inWord (i : Int) = true := Literal.inWord_iff.mpr (by omega)
      refine ⟨i, ?_⟩
      rw [label, StateLabel.column?_word word]
      rfl
    choose! label named using named
    have made : columnsOf ts = .ok ⟨ts.map label, ts.map (·.probability.value), ts.map (·.reward.value)⟩ := by
      rw [columnsOf, Outcome.mapM_ok named]
      rfl
    obtain ⟨es, same⟩ := columnsOf_exact made (exact s a ts known)
    exact ⟨es, made.trans (congrArg Except.ok same)⟩
  have state : ∀ s < m.stateCount, ∃ row : List (List (Chance K)), m.actionCount (s : Nat) = .ok (row.length : Int) ∧
      ∀ (a : Nat) (within : a < row.length), ∃ ts, m.transitions (s : Nat) (a : Nat) = .ok ts ∧
        columnsOf ts = .ok (Chance.columns row[a]) := by
    intro s inside
    obtain ⟨k, count, each⟩ := listed s inside
    have outcomes : ∀ a < k, ∃ es, ∃ ts, m.transitions (s : Nat) (a : Nat) = .ok ts ∧
        columnsOf ts = .ok (Chance.columns es) := by
      intro a within
      obtain ⟨ts, known, labels⟩ := each a within
      obtain ⟨es, made⟩ := action known labels
      exact ⟨es, ts, known, made⟩
    obtain ⟨row, length, fits⟩ := exists_list outcomes
    exact ⟨row, length ▸ count, fits⟩
  obtain ⟨rows, length, fits⟩ := exists_list state
  refine ⟨rows, (List.length_map _).trans length, fun s inside => ?_, fun s inside a within => ?_⟩
  · have inside : s < rows.length := by simpa using inside
    rw [(fits s inside).1]
    simp
  · have inside : s < rows.length := by simpa using inside
    simp only [List.getElem_map, List.length_map] at within ⊢
    exact (fits s inside).2 a within

variable [IsStrictOrderedRing K]

theorem Chance.Positive.probability_le {es : List (Chance K)} (positive : Positive es) {e : Chance K}
    (member : e ∈ es) : e.probability ≤ mass e.next es := by
  refine List.single_le_sum (List.forall_mem_map.mpr fun x inGroup => ?_) _
    (List.mem_map_of_mem (mem_towards.mpr ⟨member, rfl⟩))
  exact (positive x (mem_towards.mp inGroup).1).le

-- Merged outcomes say all that is asked of the outcomes they were merged from, but not that these are positive.
theorem Chance.acceptable_merge [FloorRing K] {states : Nat} {es : List (Chance K)} :
    Acceptable states es ↔ Acceptable states (Chance.merge es) ∧ Positive es := by
  constructor
  · intro acceptable
    exact ⟨acceptable.merge, acceptable.positive⟩
  · rintro ⟨merged, positive⟩
    have left (e : Chance K) (member : e ∈ es) : ∃ u ∈ Chance.merge es, u.next = e.next ∧ u.probability = mass e.next es :=
      ⟨_, List.mem_map_of_mem (mem_targets.mpr ⟨e, member, rfl⟩), rfl, rfl⟩
    have total := positive.sum_probability fun _ => 1
    simp only [mul_one] at total
    refine ⟨?_, fun e member => ?_, positive, fun e member => ?_, total ▸ merged.total⟩
    · rintro rfl
      exact merged.some (List.map_eq_nil_iff.mpr (List.mergeSort_nil ..))
    · obtain ⟨u, kept, same, _⟩ := left e member
      exact same ▸ merged.inside u kept
    · obtain ⟨u, kept, _, probability⟩ := left e member
      have bounded := merged.bounded u kept
      rw [probability] at bounded
      exact (positive.probability_le member).trans bounded

variable [FloorRing K]

theorem buildable_exact {rows : List (List (List (Chance K)))} :
    FlatModel.Buildable (rows.map (List.map Chance.columns)) ↔
      rows ≠ [] ∧ ∀ row ∈ rows, row ≠ [] ∧ ∀ es ∈ row, Chance.Acceptable rows.length es := by
  rw [FlatModel.Buildable, List.length_map]
  simp only [ne_eq, List.map_eq_nil_iff, List.forall_mem_map, admissible_exact]

variable {m : Model (Extended K)}

theorem Model.Columned.copied_exact {rows : List (List (List (Chance K)))}
    (columned : m.Columned (rows.map (List.map Chance.columns))) : ((∃ f, m.flatten false = .ok f) ↔
      rows ≠ [] ∧ ∀ row ∈ rows, row ≠ [] ∧ ∀ es ∈ row, Chance.Acceptable rows.length es) := by
  have plain : (Columns.kept false : Columns (Extended K) → Columns (Extended K)) = id := rfl
  rw [(columned.copied false).1, plain, List.map_id_fun, List.map_id, buildable_exact]

theorem Model.Columned.merged_exact {rows : List (List (List (Chance K)))}
    (columned : m.Columned (rows.map (List.map Chance.columns))) : ((∃ g, m.flatten true = .ok g) ↔
      rows ≠ [] ∧ ∀ row ∈ rows, row ≠ [] ∧ ∀ es ∈ row, Chance.Acceptable rows.length (Chance.merge es)) := by
  have kept (es : List (Chance K)) : (Chance.columns es).kept true = Chance.columns (Chance.merge es) :=
    Chance.columns_merged es
  have gathered : (rows.map (List.map Chance.columns)).map (List.map (Columns.kept true))
      = (rows.map (List.map Chance.merge)).map (List.map Chance.columns) := by
    simp only [List.map_map, Function.comp_def, kept]
  rw [(columned.copied true).1, gathered, buildable_exact, List.length_map]
  simp only [ne_eq, List.map_eq_nil_iff, List.forall_mem_map]

-- A model lists its outcomes under its states and with exact numbers. Each of its copies is made or refused for
-- its structure. The merged one is made exactly if what is left of each action is in order; the other is
-- refused where the merged one is, and moreover where some listed probability is not positive.
theorem merging_forgives (listed : m.Listed) (exact : m.Exact) (small : m.stateCount ≤ 2 ^ 63) :
    ∃ rows : List (List (List (Chance K))), m.Columned (rows.map (List.map Chance.columns)) ∧
      (∀ merge e, m.flatten merge = .error e → e.kind = .structural) ∧
      ((∃ g, m.flatten true = .ok g) ↔ rows ≠ [] ∧ ∀ row ∈ rows, row ≠ [] ∧
        ∀ es ∈ row, Chance.Acceptable rows.length (Chance.merge es)) ∧
      ((∃ e, m.flatten false = .error e) ↔ (∃ e, m.flatten true = .error e) ∨
        ∃ row ∈ rows, ∃ es ∈ row, ∃ e ∈ es, e.probability ≤ 0) := by
  obtain ⟨rows, columned⟩ := listed.chances exact small
  have refused (merge : Bool) : (∃ e, m.flatten merge = .error e) ↔ ¬∃ f, m.flatten merge = .ok f := by
    cases m.flatten merge <;> simp
  have positive : (∃ row ∈ rows, ∃ es ∈ row, ∃ e ∈ es, e.probability ≤ 0) ↔
      ¬∀ row ∈ rows, ∀ es ∈ row, Chance.Positive es := by
    simp [Chance.Positive]
  refine ⟨rows, columned, fun merge => (columned.copied merge).2, columned.merged_exact, ?_⟩
  rw [refused false, refused true, positive, ← not_and_or, not_iff_not, columned.copied_exact, columned.merged_exact]
  constructor
  · rintro ⟨some, each⟩
    exact ⟨⟨some, fun row member => ⟨(each row member).1, fun es inRow => ((each row member).2 es inRow).merge⟩⟩,
      fun row member es inRow => ((each row member).2 es inRow).positive⟩
  · rintro ⟨⟨some, each⟩, positive⟩
    exact ⟨some, fun row member => ⟨(each row member).1, fun es inRow =>
      Chance.acceptable_merge.mpr ⟨(each row member).2 es inRow, positive row member es inRow⟩⟩⟩

end Exact

section Split

def Table.split (p q : ℚ) : Table (Extended ℚ) :=
  ⟨#[#[.ok [⟨.index 0, .real (.finite p), .whole 0⟩, ⟨.index 0, .real (.finite q), .whole 0⟩]]]⟩

theorem Table.split_columned (p q : ℚ) :
    (Model.table (split p q)).Columned [[Chance.columns [⟨0, p, 0⟩, ⟨0, q, 0⟩]]] := by
  refine ⟨rfl, fun s inside => ?_, fun s inside a within => ?_⟩
  · obtain rfl : s = 0 := by simpa using inside
    rfl
  · obtain rfl : s = 0 := by simpa using inside
    obtain rfl : a = 0 := by simpa using within
    exact ⟨_, rfl, rfl⟩

theorem Table.split_merged {p q : ℚ} (total : p + q = 1) : ∃ g, (Model.table (split p q)).flatten true = .ok g := by
  have columned : (Model.table (split p q)).Columned
      ([[[⟨0, p, 0⟩, ⟨0, q, 0⟩]]].map (List.map Chance.columns)) := split_columned p q
  have single : Chance.merge [⟨0, p, 0⟩, ⟨0, q, 0⟩] = [⟨0, 1, 0⟩] := by
    have next : Chance.targets [(⟨0, p, 0⟩ : Chance ℚ), ⟨0, q, 0⟩] = [0] :=
      Chance.targets_unique (by decide) fun t => by simp [eq_comm]
    rw [Chance.merge, next]
    simp [Chance.mass, Chance.yield, Chance.towards, total]
  refine columned.merged_exact.mpr ⟨by simp, ?_⟩
  simp only [List.forall_mem_singleton, single]
  refine ⟨by simp, by simp, ?_, ?_, ?_, ?_⟩
  · simp
  · simp [Chance.Positive]
  · simp
  · simp

-- A negative probability makes up for one above one, and neither is seen.
theorem merging_admits_negative :
    (Model.table (Table.split (3 / 2) (-1 / 2))).flatten false = .error (.probabilityOutside 0 0) ∧
      ∃ g, (Model.table (Table.split (3 / 2) (-1 / 2))).flatten true = .ok g := by
  refine ⟨?_, Table.split_merged (by norm_num)⟩
  have ends : (match (Model.table (Table.split (3 / 2) (-1 / 2))).flatten false with
    | .error (.probabilityOutside 0 0) => true
    | _ => false) = true := by decide +kernel
  split at ends
  · assumption
  · cases ends

theorem merging_forgives_zero : ∃ rows : List (List (List (Chance ℚ))),
    (Model.table (Table.split 1 0)).Columned (rows.map (List.map Chance.columns)) ∧
      ∃ row ∈ rows, ∃ es ∈ row, ∃ e ∈ es, e.probability ≤ 0 := by
  have listed : (Model.table (Table.split 1 0)).Listed := by
    intro s inside
    obtain rfl : s = 0 := Nat.lt_one_iff.mp inside
    refine ⟨1, rfl, fun a within => ?_⟩
    obtain rfl : a = 0 := Nat.lt_one_iff.mp within
    refine ⟨_, rfl, fun t member => ⟨0, Nat.one_pos, ?_⟩⟩
    rcases List.mem_pair.mp member with rfl | rfl <;> rfl
  have exact : (Model.table (Table.split 1 0)).Exact := by
    intro s a ts known t member
    obtain ⟨inside, k, within, count⟩ := Table.transitions_inside known
    obtain rfl : s = 0 := Nat.lt_one_iff.mp inside
    cases count
    obtain rfl : a = 0 := Nat.lt_one_iff.mp within
    cases known
    rcases List.mem_pair.mp member with rfl | rfl <;> exact ⟨⟨_, rfl⟩, _, rfl⟩
  obtain ⟨rows, columned, _, _, refused⟩ := merging_forgives listed exact (by decide)
  have failed : ((Model.table (Table.split 1 0)).flatten false).isOk = false := by decide +kernel
  refine ⟨rows, columned, (refused.mp ?_).resolve_left ?_⟩
  · cases copied : (Model.table (Table.split 1 0)).flatten false with
    | ok f =>
      rw [copied] at failed
      cases failed
    | error e => exact ⟨e, rfl⟩
  · rintro ⟨e, merged⟩
    obtain ⟨g, made⟩ := Table.split_merged (p := 1) (q := 0) (by norm_num)
    cases made.symm.trans merged

end Split

end MarkovDecision
