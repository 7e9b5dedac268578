import MarkovDecision.Linear.Sparse
import MarkovDecision.Proofs.Execution
import MarkovDecision.Proofs.Representation

namespace MarkovDecision

namespace SparseRow

section Columns

variable {α : Type} [Scalar α]

theorem add_sorted (column : Nat) (x : α) (row : SparseRow α) (sorted : row.Pairwise (·.1 < ·.1)) :
    (add column x row).Pairwise (·.1 < ·.1) ∧
      ∀ e ∈ add column x row, e.1 = column ∨ ∃ e' ∈ row, e'.1 = e.1 := by
  induction row with
  | nil => exact ⟨List.pairwise_singleton _ _, by simp [add]⟩
  | cons e rest ih =>
    obtain ⟨c, y⟩ := e
    obtain ⟨first, later⟩ := List.pairwise_cons.mp sorted
    obtain ⟨kept, columns⟩ := ih later
    rw [add]
    rcases lt_trichotomy column c with before | same | after
    · rw [if_pos before]
      refine ⟨List.pairwise_cons.mpr ⟨List.forall_mem_cons.mpr ⟨before, fun e member =>
        before.trans (first e member)⟩, sorted⟩, ?_⟩
      exact List.forall_mem_cons.mpr ⟨Or.inl rfl, fun e member => Or.inr ⟨e, member, rfl⟩⟩
    · rw [if_neg same.not_lt, if_pos (by simp [same])]
      refine ⟨List.pairwise_cons.mpr ⟨first, later⟩, ?_⟩
      exact List.forall_mem_cons.mpr ⟨Or.inl same.symm, fun e member =>
        Or.inr ⟨e, List.mem_cons_of_mem _ member, rfl⟩⟩
    · rw [if_neg after.not_gt, if_neg (by simpa using after.ne')]
      refine ⟨List.pairwise_cons.mpr ⟨fun e member => ?_, kept⟩, ?_⟩
      · rcases columns e member with new | ⟨e', listed, same⟩
        · rw [new]
          exact after
        · rw [← same]
          exact first e' listed
      · refine List.forall_mem_cons.mpr ⟨Or.inr ⟨_, List.mem_cons_self, rfl⟩, fun e member => ?_⟩
        rcases columns e member with new | ⟨e', listed, same⟩
        · exact Or.inl new
        · exact Or.inr ⟨e', List.mem_cons_of_mem _ listed, same⟩

theorem get_cons (e : Nat × α) (row : SparseRow α) (j : Nat) :
    get (e :: row) j = if e.1 = j then e.2 else get row j := by
  unfold get
  by_cases here : e.1 = j
  · rw [List.find?_cons_of_pos (by simpa using here), if_pos here]
  · rw [List.find?_cons_of_neg (by simpa using here), if_neg here]

theorem get_missing {row : SparseRow α} {j : Nat} (missing : ∀ e ∈ row, e.1 ≠ j) : row.get j = Scalar.zero := by
  induction row with
  | nil => rfl
  | cons e rest ih =>
    obtain ⟨here, later⟩ := List.forall_mem_cons.mp missing
    rw [get_cons, if_neg here, ih later]

theorem get_add (neutral : ∀ x : α, Scalar.zero + x = x) (column : Nat) (x : α) {row : SparseRow α}
    (sorted : row.Pairwise (·.1 < ·.1)) (j : Nat) :
    (add column x row).get j = if column = j then row.get column + x else row.get j := by
  induction row with
  | nil =>
    rw [add, get_cons, get_missing (j := column) (by simp), neutral]
  | cons e rest ih =>
    obtain ⟨c, y⟩ := e
    obtain ⟨first, later⟩ := List.pairwise_cons.mp sorted
    rw [add]
    rcases lt_trichotomy column c with before | same | after
    · have fresh : ∀ e ∈ (c, y) :: rest, e.1 ≠ column :=
        List.forall_mem_cons.mpr ⟨before.ne', fun e member => (before.trans (first e member)).ne'⟩
      rw [if_pos before, get_cons, get_missing fresh, neutral]
    · subst same
      rw [if_neg (lt_irrefl column), if_pos (by simp), get_cons, get_cons, get_cons, if_pos rfl]
      split <;> rfl
    · rw [if_neg after.not_gt, if_neg (by simpa using after.ne'), get_cons, get_cons, get_cons, ih later,
        if_neg after.ne]
      by_cases here : c = j
      · rw [if_pos here, if_neg (by omega), if_pos here]
      · rw [if_neg here, if_neg here]

theorem get_stored {row : SparseRow α} (sorted : row.Pairwise (·.1 < ·.1)) {e : Nat × α} (member : e ∈ row) :
    row.get e.1 = e.2 := by
  induction row with
  | nil => cases member
  | cons first rest ih =>
    obtain ⟨below, later⟩ := List.pairwise_cons.mp sorted
    rw [get_cons]
    rcases List.mem_cons.mp member with rfl | listed
    · rw [if_pos rfl]
    · rw [if_neg (below e listed).ne, ih later listed]

theorem stored_of_get {row : SparseRow α} {j : Nat} (some : row.get j ≠ Scalar.zero) : (j, row.get j) ∈ row := by
  induction row with
  | nil => exact absurd rfl some
  | cons e rest ih =>
    rw [get_cons] at some ⊢
    by_cases here : e.1 = j
    · rw [if_pos here, ← here]
      exact List.mem_cons_self
    · rw [if_neg here] at some ⊢
      exact List.mem_cons_of_mem _ (ih some)

theorem eq_of_get {row other : SparseRow α} (sorted : row.Pairwise (·.1 < ·.1)) (sorted' : other.Pairwise (·.1 < ·.1))
    (nonzero : ∀ e ∈ row, e.2 ≠ Scalar.zero) (nonzero' : ∀ e ∈ other, e.2 ≠ Scalar.zero)
    (same : ∀ j, row.get j = other.get j) : row = other := by
  have shared {row other : SparseRow α} (sorted : row.Pairwise (·.1 < ·.1)) (nonzero : ∀ e ∈ row, e.2 ≠ Scalar.zero)
      (same : ∀ j, row.get j = other.get j) : ∀ e ∈ row, e ∈ other := by
    intro e member
    have found : other.get e.1 = e.2 := (same e.1).symm.trans (get_stored sorted member)
    have kept : (e.1, other.get e.1) ∈ other := stored_of_get (by rw [found]; exact nonzero e member)
    rwa [found] at kept
  have distinct {row : SparseRow α} (sorted : row.Pairwise (·.1 < ·.1)) : row.Nodup :=
    sorted.imp fun below same => absurd (congrArg Prod.fst same) below.ne
  have perm := (List.perm_ext_iff_of_nodup (distinct sorted) (distinct sorted')).mpr fun e =>
    ⟨shared sorted nonzero same e, shared sorted' nonzero' (fun j => (same j).symm) e⟩
  exact perm.eq_of_pairwise (fun _ _ _ _ first second => absurd first second.not_gt) sorted sorted'

end Columns

variable {K : Type}

def exactEntries (es : List (Nat × K)) : SparseRow (Extended K) := es.map fun e => (e.1, .finite e.2)

theorem exactEntries_ascending {es : List (Nat × K)} :
    (exactEntries es).Pairwise (·.1 < ·.1) ↔ es.Pairwise (·.1 < ·.1) := List.pairwise_map

variable [Field K]

def weigh (es : List (Nat × K)) (f : Nat → K) : K := (es.map fun e => e.2 * f e.1).sum

@[simp] theorem weigh_nil (f : Nat → K) : weigh [] f = 0 := rfl

@[simp] theorem weigh_cons (e : Nat × K) (es : List (Nat × K)) (f : Nat → K) :
    weigh (e :: es) f = e.2 * f e.1 + weigh es f := List.sum_cons

theorem weigh_append (es fs : List (Nat × K)) (f : Nat → K) :
    weigh (es ++ fs) f = weigh es f + weigh fs f := by
  rw [weigh, List.map_append, List.sum_append]
  rfl

-- A row that stands for a list of entries: columns ascend, and every weighing agrees.
structure Holds (row : SparseRow (Extended K)) (entries es : List (Nat × K)) : Prop where
  stored : row = exactEntries es
  ascending : es.Pairwise (·.1 < ·.1)
  weighed : ∀ f, weigh es f = weigh entries f
  columns : ∀ e ∈ es, ∃ e' ∈ entries, e'.1 = e.1

variable [LinearOrder K] [FloorRing K]

theorem add_exact (c : Nat) (x : K) (es : List (Nat × K)) :
    ∃ fs, add c (.finite x) (exactEntries es) = exactEntries fs ∧ ∀ f, weigh fs f = weigh es f + x * f c := by
  induction es with
  | nil => exact ⟨[(c, x)], rfl, by simp⟩
  | cons e es ih =>
    obtain ⟨d, y⟩ := e
    have shape : exactEntries ((d, y) :: es) = (d, .finite y) :: exactEntries es := rfl
    rw [shape, add]
    rcases lt_trichotomy c d with before | same | after
    · rw [if_pos before]
      refine ⟨(c, x) :: (d, y) :: es, rfl, fun f => ?_⟩
      rw [weigh_cons, add_comm]
    · subst same
      rw [if_neg (lt_irrefl c), if_pos (by simp)]
      refine ⟨(c, y + x) :: es, rfl, fun f => ?_⟩
      simp only [weigh_cons]
      ring
    · rw [if_neg after.not_gt, if_neg (by simp; omega)]
      obtain ⟨fs, added, weighed⟩ := ih
      refine ⟨(d, y) :: fs, by rw [added]; rfl, fun f => ?_⟩
      rw [weigh_cons, weigh_cons, weighed, add_assoc]

theorem Holds.add {row : SparseRow (Extended K)} {entries es : List (Nat × K)} (holds : Holds row entries es)
    (e : Nat × K) : ∃ fs, Holds (SparseRow.add e.1 (.finite e.2) row) (entries ++ [e]) fs := by
  obtain ⟨fs, added, weighed⟩ := add_exact e.1 e.2 es
  have sorted := add_sorted e.1 (.finite e.2) (exactEntries es) (exactEntries_ascending.mpr holds.ascending)
  rw [added] at sorted
  obtain ⟨ascending, columns⟩ := sorted
  refine ⟨fs, by rw [holds.stored, added], exactEntries_ascending.mp ascending, fun f => ?_, fun g member => ?_⟩
  · rw [weighed, holds.weighed, weigh_append, weigh_cons, weigh_nil, add_zero]
  · rcases columns _ (List.mem_map_of_mem member) with new | ⟨_, listed, same⟩
    · exact ⟨e, by simp, new.symm⟩
    · obtain ⟨old, inRow, rfl⟩ := List.mem_map.mp listed
      obtain ⟨origin, known, place⟩ := holds.columns old inRow
      exact ⟨origin, List.mem_append_left _ known, place.trans same⟩

theorem ofEntries_holds (entries : List (Nat × K)) :
    ∃ es, Holds (ofEntries (exactEntries entries)) entries es := by
  induction entries using List.reverseRecOn with
  | nil => exact ⟨[], rfl, List.Pairwise.nil, fun _ => rfl, by simp⟩
  | append_singleton entries e ih =>
    obtain ⟨es, holds⟩ := ih
    have grown : ofEntries (exactEntries (entries ++ [e]))
        = SparseRow.add e.1 (.finite e.2) (ofEntries (exactEntries entries)) := by
      rw [exactEntries, List.map_append, ofEntries, List.foldl_append]
      rfl
    rw [grown]
    exact holds.add e

theorem dropZeros_holds {row : SparseRow (Extended K)} {entries es : List (Nat × K)}
    (holds : Holds row entries es) : ∃ fs, Holds row.dropZeros entries fs := by
  refine ⟨es.filter fun e => !decide (e.2 = 0), ?_, holds.ascending.filter _, fun f => ?_, fun e member => ?_⟩
  · rw [holds.stored, dropZeros, exactEntries, List.filter_map, exactEntries]
    refine congrArg (List.map _) (congrArg (List.filter · es) (funext fun e => ?_))
    simp only [Function.comp, Extended.zero_eq, Extended.eq_finite]
  · rw [← holds.weighed]
    clear holds
    induction es with
    | nil => rfl
    | cons e es ih =>
      by_cases zero : e.2 = 0
      · rw [List.filter_cons_of_neg (by simpa using zero), ih, weigh_cons, zero, zero_mul, zero_add]
      · rw [List.filter_cons_of_pos (by simpa using zero), weigh_cons, weigh_cons, ih]
  · exact holds.columns e (List.mem_of_mem_filter member)

theorem get_exact {row : SparseRow (Extended K)} {entries es : List (Nat × K)}
    (holds : Holds row entries es) (c : Nat) :
    row.get c = .finite (weigh entries fun d => if d = c then 1 else 0) := by
  rw [holds.stored, ← holds.weighed]
  have sorted := holds.ascending
  clear holds
  induction es with
  | nil => exact Extended.zero_eq
  | cons e es ih =>
    obtain ⟨first, later⟩ := List.pairwise_cons.mp sorted
    rw [weigh_cons]
    by_cases here : e.1 = c
    · have rest : weigh es (fun d => if d = c then 1 else 0) = 0 := by
        refine List.sum_eq_zero fun x member => ?_
        obtain ⟨d, listed, same⟩ := List.mem_map.mp member
        have above := first d listed
        dsimp only at same
        rw [← same, if_neg (by omega), mul_zero]
      rw [rest, if_pos here, mul_one, add_zero, get, exactEntries, List.map_cons,
        List.find?_cons_of_pos (by simpa using here)]
    · rw [if_neg here, mul_zero, zero_add, ← ih later, get, get, exactEntries, List.map_cons,
        List.find?_cons_of_neg (by simpa using here)]
      rfl

theorem dropZeros_congr {entries others : List (Nat × K)} (same : ∀ f, weigh entries f = weigh others f) :
    (ofEntries (exactEntries entries)).dropZeros = (ofEntries (exactEntries others)).dropZeros := by
  have kept (es : List (Nat × K)) : ∃ fs, Holds (ofEntries (exactEntries es)).dropZeros es fs := by
    obtain ⟨_, merged⟩ := ofEntries_holds es
    exact dropZeros_holds merged
  have sorted (es : List (Nat × K)) : (ofEntries (exactEntries es)).dropZeros.Pairwise (·.1 < ·.1) := by
    obtain ⟨fs, holds⟩ := kept es
    rw [holds.stored]
    exact holds.ascending.map _ fun _ _ below => below
  have nonzero (es : List (Nat × K)) : ∀ e ∈ (ofEntries (exactEntries es)).dropZeros, e.2 ≠ Scalar.zero := by
    intro e member zero
    have stored : (!Scalar.eq e.2 Scalar.zero) = true := (List.mem_filter.mp member).2
    rw [zero, Extended.zero_eq] at stored
    simp at stored
  refine eq_of_get (sorted entries) (sorted others) (nonzero entries) (nonzero others) fun j => ?_
  obtain ⟨_, first⟩ := kept entries
  obtain ⟨_, second⟩ := kept others
  rw [get_exact first, get_exact second, same]

theorem dot_exact {n : Nat} {row : SparseRow (Extended K)} {entries es : List (Nat × K)}
    (holds : Holds row entries es) (inside : ∀ e ∈ entries, e.1 < n) (v : Fin n → K) :
    row.dot (exactVector v) = .finite (weigh entries (padded v)) := by
  have within : ∀ e ∈ es, e.1 < n := by
    intro e member
    obtain ⟨origin, listed, same⟩ := holds.columns e member
    rw [← same]
    exact inside origin listed
  have general : ∀ (es : List (Nat × K)) (start : K), (∀ e ∈ es, e.1 < n) →
      (exactEntries es).foldl (fun total (c, x) => total + x * (exactVector v).getD c Scalar.zero)
        (Extended.finite start) = .finite (start + weigh es (padded v)) := by
    intro es
    induction es with
    | nil => intro start _; rw [weigh_nil, add_zero]; rfl
    | cons e es ih =>
      intro start bounds
      obtain ⟨here, later⟩ := List.forall_mem_cons.mp bounds
      have cell := exactVector_getD v ⟨e.1, here⟩
      have place := padded_fin v ⟨e.1, here⟩
      dsimp only at cell place
      rw [exactEntries, List.map_cons, List.foldl_cons]
      dsimp only
      rw [cell, Extended.finite_mul, Extended.finite_add, weigh_cons, place, ← add_assoc]
      exact ih _ later
  have whole := general es 0 within
  rw [zero_add, holds.weighed, ← Extended.zero_eq] at whole
  rw [holds.stored, dot]
  exact whole

end SparseRow

namespace SparseMatrix

variable {K : Type}

theorem rowOf?_exact [Field K] [LinearOrder K] [FloorRing K] {width : Nat} {entries : List (Nat × K)}
    (inside : ∀ e ∈ entries, e.1 < width) :
    rowOf? width (entries.map fun e => (some (e.1 : Int), (.finite e.2 : Extended K)))
      = some (SparseRow.ofEntries (SparseRow.exactEntries entries)) := by
  rw [rowOf?, Outcome.mapM_some (g := fun e => ((e.1.getD 0).toNat, e.2))]
  · rw [Option.map_some, List.map_map]
    rfl
  · intro e member
    obtain ⟨origin, listed, rfl⟩ := List.mem_map.mp member
    have bound := inside origin listed
    simp only [Option.bind_eq_bind, Option.bind_some]
    rw [if_pos (by simpa using bound)]
    rfl

end SparseMatrix

end MarkovDecision
