import MarkovDecision.LinearProgram.Recovery
import MarkovDecision.Proofs.ValueProgram

namespace MarkovDecision

section Arrays

variable {α β γ δ : Type}

theorem Tensor.map_ofVector (f : β → γ) (xs : Array β) : (ofVector xs).map f = ofVector (xs.map f) := by
  rw [map, ofVector, ofVector, Array.size_map]

theorem Tensor.cells_ofVector (xs : Array β) : (ofVector xs).cells = xs := rfl

theorem Tensor.zipStretched?_vector (f : β → γ → δ) (xs : Array β) (ys : Array γ)
    (same : ys.size = xs.size) :
    zipStretched? f (.ofVector xs) (.ofVector ys) = some (.ofVector (Array.zipWith f xs ys)) := by
  have shape : commonShape? [xs.size] [xs.size] = some [xs.size] := by simp [commonShape?]
  have whole : volume [xs.size] = xs.size := one_mul _
  have place (i : Fin xs.size) : stretchedPosition [xs.size] (coordinates [xs.size] i) = i := by
    have inside := i.isLt
    simp only [coordinates, stretchedPosition, Nat.mod_eq_of_lt inside]
    split
    · rename_i single
      have single := beq_iff_eq.mp single
      omega
    · omega
  have cells : (List.ofFn fun i : Fin xs.size => (i : Nat)).mapM (fun position => do
      let x ← xs[stretchedPosition [xs.size] (coordinates [xs.size] position)]?
      let y ← ys[stretchedPosition [xs.size] (coordinates [xs.size] position)]?
      return f x y) = some (List.ofFn fun i : Fin xs.size => f xs[i] ys[(i : Nat)]) := by
    refine Outcome.mapM_some_ofFn fun i => ?_
    simp [place i, same]
  have listed : (List.ofFn fun i : Fin xs.size => f xs[i] ys[(i : Nat)]).toArray
      = Array.zipWith f xs ys := Array.ext (by simp [same]) fun i _ _ => by simp
  rw [← range_map fun i => i, List.map_id'] at cells
  rw [zipStretched?]
  simp only [ofVector, List.reverse_singleton, same]
  rw [shape, Option.bind_eq_bind, Option.bind_some, whole, cells, Option.bind_eq_bind, Option.bind_some,
    listed, Array.size_zipWith, same, Nat.min_self]
  rfl

end Arrays

variable {n : Nat} {K : Type} {P : Process n K}

namespace RowPlan

def firstRow (plan : RowPlan P) (s : Nat) : Nat := (offsets (List.ofFn plan.rowCount)).getD s 0

section Slices

variable {β : Type} (plan : RowPlan P)

theorem rows_extract (f : (Σ s : Fin n, Fin (P.actionCount s)) → β) {s : Fin n}
    (free : plan.fixed s = false) : (plan.pairs.map f).toArray.extract (plan.firstRow s) (plan.firstRow (s + 1))
      = Array.ofFn fun a => f ⟨s, a⟩ := by
  let rows (t : Fin n) : List β := if plan.fixed t then [] else List.ofFn fun a => f ⟨t, a⟩
  have lengths : (List.ofFn rows).map List.length = List.ofFn plan.rowCount := by
    rw [List.map_ofFn]
    refine congrArg List.ofFn (funext fun t => ?_)
    change (if plan.fixed t then [] else List.ofFn fun a => f ⟨t, a⟩).length = plan.rowCount t
    rw [rowCount, apply_ite List.length, List.length_ofFn]
    rfl
  have piece := extract_flatten (List.ofFn rows) (k := s) (by rw [List.length_ofFn]; exact s.isLt)
  rw [lengths] at piece
  rw [pairs_map, firstRow, firstRow, piece, List.getElem_ofFn]
  change (if plan.fixed s then [] else List.ofFn fun a => f ⟨s, a⟩).toArray = _
  rw [if_neg (by simp [free]), List.toArray_ofFn]

theorem firstRow_next (s : Fin n) : plan.firstRow (s + 1) = plan.firstRow s + plan.rowCount s := by
  have place {k : Nat} (within : k ≤ n) : plan.firstRow k = ((List.ofFn plan.rowCount).take k).sum := by
    rw [firstRow, offsets_getD _ (by rwa [List.length_ofFn])]
  rw [place s.isLt.le, place s.isLt, List.take_add_one, List.sum_append]
  simp

theorem pairs_length : plan.pairs.length = (List.ofFn plan.rowCount).sum := by
  rw [pairs, List.length_flatten, List.map_ofFn]
  refine congrArg (fun f => (List.ofFn f).sum) (funext fun s => ?_)
  rw [Function.comp_apply, rowCount, apply_ite List.length, List.length_ofFn]
  rfl

theorem firstRow_le (k : Nat) : plan.firstRow k ≤ plan.pairs.length := by
  rw [pairs_length]
  exact offsets_getD_le _ k

theorem row_place (f : (Σ s : Fin n, Fin (P.actionCount s)) → β) {s : Fin n} (free : plan.fixed s = false)
    (a : Fin (P.actionCount s)) : (plan.pairs.map f).toArray[plan.firstRow s + a]? = some (f ⟨s, a⟩) := by
  have cell := congrArg (fun xs => xs[(a : Nat)]?) (rows_extract plan f free)
  have covered := firstRow_le plan (s + 1)
  have next := firstRow_next plan s
  rw [show plan.rowCount s = P.actionCount s from if_neg (by simp [free])] at next
  have inside := a.isLt
  rw [Array.getElem?_extract, if_pos (by simp; omega)] at cell
  rw [cell]
  simp

end Slices

variable [Field K] [LinearOrder K] [FloorRing K]

theorem applyTo?_exact (plan : RowPlan P) (v : Fin n → K) :
    plan.program.matrix.applyTo? (.ofVector (exactVector v))
      = some (.ofVector (plan.pairs.map fun x =>
        .finite (plan.own * v x.1 + plan.follow * P.mean v x.1 x.2)).toArray) := by
  simp only [SparseMatrix.applyTo?, Tensor.ofVector, exactVector_size, program,
    SparseMatrix.apply, List.map_map, Function.comp_def, row_dot]
  rw [if_pos (beq_self_eq_true n)]

theorem slacks_exact (plan : RowPlan P) (v : Fin n → K) :
    plan.program.slacks (.ofVector (exactVector v))
      = some (.ofVector (plan.pairs.map fun x => .finite (plan.slack v x)).toArray) := by
  rw [StateProgram.slacks, applyTo?_exact, Option.bind_eq_bind, Option.bind_some, program,
    Tensor.zipStretched?_vector _ _ _ (by simp), List.zipWith_toArray, List.zipWith_map, List.zipWith_self]
  refine congrArg (fun xs => some (Tensor.ofVector (List.toArray xs))) (List.map_congr_left fun x _ => ?_)
  rw [Extended.finite_sub, slack]

end RowPlan

namespace StateProgram

section Least

variable [LinearOrder K]

structure FirstLeast (xs : List K) (x : K) (k : Nat) : Prop where
  place : xs[k]? = some x
  least : ∀ y ∈ xs, x ≤ y
  first : ∀ i < k, ∀ y, xs[i]? = some y → x < y

theorem FirstLeast.append {xs : List K} {x y : K} {k : Nat} (before : FirstLeast xs x k) (above : x ≤ y) :
    FirstLeast (xs ++ [y]) x k := by
  have inside : k < xs.length := (List.getElem?_eq_some_iff.mp before.place).1
  constructor
  · rw [List.getElem?_append_left inside, before.place]
  · intro z member
    rcases List.mem_append.mp member with earlier | last
    · exact before.least z earlier
    · exact above.trans_eq (List.mem_singleton.mp last).symm
  · intro i below z found
    rw [List.getElem?_append_left (below.trans inside)] at found
    exact before.first i below z found

theorem FirstLeast.replace {xs : List K} {x y : K} {k : Nat} (before : FirstLeast xs x k) (below : y < x) :
    FirstLeast (xs ++ [y]) y xs.length := by
  constructor
  · rw [List.getElem?_concat_length]
  · intro z member
    rcases List.mem_append.mp member with earlier | last
    · exact (below.trans_le (before.least z earlier)).le
    · exact (List.mem_singleton.mp last).ge
  · intro i inside z found
    rw [List.getElem?_append_left inside] at found
    exact below.trans_le (before.least z (List.mem_of_getElem? found))

end Least

variable [Field K] [LinearOrder K] [FloorRing K]

theorem leastPosition_first (x : K) (ys : List K) :
    ∃ y, FirstLeast (x :: ys) y (leastPosition ((x :: ys).map Extended.finite)) := by
  let step (best : Extended K × Nat) (next : Extended K × Nat) : Extended K × Nat :=
    if Scalar.isNaN best.1 then best
    else if Scalar.isNaN next.1 || Scalar.lt next.1 best.1 then next
    else best
  have found : ∃ y k, ((ys.map Extended.finite).zipIdx 1).foldl step (.finite x, 0) = (.finite y, k) ∧
      FirstLeast (x :: ys) y k := by
    induction ys using List.reverseRecOn with
    | nil =>
      refine ⟨x, 0, rfl, rfl, fun y member => ?_, fun i below => absurd below (Nat.not_lt_zero i)⟩
      exact (List.mem_singleton.mp member).ge
    | append_singleton ys z ih =>
      obtain ⟨y, k, same, first⟩ := ih
      have next : ((ys ++ [z]).map Extended.finite).zipIdx 1
          = (ys.map Extended.finite).zipIdx 1 ++ [(.finite z, 1 + ys.length)] := by
        simp [List.zipIdx_append]
      rw [next, List.foldl_append, same, List.foldl_cons, List.foldl_nil, ← List.cons_append]
      rcases lt_or_ge z y with below | above
      · refine ⟨z, 1 + ys.length, ?_, ?_⟩
        · simp [step, below]
        · rw [Nat.add_comm]
          exact first.replace below
      · refine ⟨y, k, ?_, first.append above⟩
        simp [step, above.not_gt]
  obtain ⟨y, k, same, first⟩ := found
  have position : leastPosition ((x :: ys).map Extended.finite) = k := congrArg Prod.snd same
  rw [position]
  exact ⟨y, first⟩

theorem leastPosition_exact {count : Nat} (positive : 0 < count) (slack : Fin count → K) :
    ∃ k : Fin count, leastPosition (exactVector slack).toList = (k : Nat) ∧
      IsLeast {a | ∀ b, slack a ≤ slack b} k := by
  obtain ⟨y, first⟩ : ∃ y, FirstLeast (List.ofFn slack) y (leastPosition (exactVector slack).toList) := by
    rw [exactVector_toList]
    cases listed : List.ofFn slack with
    | nil => simp [positive.ne'] at listed
    | cons x ys => exact leastPosition_first x ys
  obtain ⟨inside, value⟩ := List.getElem?_eq_some_iff.mp first.place
  rw [List.getElem_ofFn] at value
  rw [List.length_ofFn] at inside
  refine ⟨⟨_, inside⟩, rfl, fun b => ?_, fun a least => ?_⟩
  · rw [value]
    exact first.least _ (List.mem_ofFn.mpr ⟨b, rfl⟩)
  · by_contra later
    have above := first.first a (not_le.mp later) (slack a) (by simp)
    exact absurd (least ⟨_, inside⟩) (by rw [value]; exact above.not_ge)

-- Among the rows of a state: the lowest marked one of the good, else the lowest good one.
structure Preferred {count : Nat} (good : Fin count → Prop) (marked : Fin count → Bool)
    (k : Fin count) : Prop where
  first_marked : ∀ a, good a → marked a = true →
    good k ∧ marked k = true ∧ ∀ b < k, good b → marked b = false
  first_good : (∀ a, good a → marked a = false) → ∀ a, good a → good k ∧ ∀ b < k, ¬good b

theorem Preferred.good {count : Nat} {good : Fin count → Prop} {marked : Fin count → Bool}
    {k : Fin count} (preferred : Preferred good marked k) {a : Fin count} (some : good a) : good k := by
  by_cases any : ∀ b, good b → marked b = false
  · exact (preferred.first_good any a some).1
  · simp only [not_forall, Bool.not_eq_false] at any
    obtain ⟨b, here, marked⟩ := any
    exact (preferred.first_marked b here marked).1

structure Ranked {count : Nat} (good : Fin count → Prop) (marked : Fin count → Bool) (slack : Fin count → K)
    (k : Fin count) : Prop extends Preferred good marked k where
  first_least : (∀ a, ¬good a) → IsLeast {a | ∀ b, slack a ≤ slack b} k

theorem search_preferred {count : Nat} (good marks : Fin count → Bool) (fallback : Fin count) :
    ∃ k : Fin count,
      (match (List.ofFn fun a => good a && marks a).findIdx? id, (List.ofFn good).findIdx? id with
        | some k, _ => k
        | none, some k => k
        | none, none => (fallback : Nat)) = (k : Nat) ∧
      Preferred (fun a => good a = true) marks k ∧ ((∀ a, ¬good a = true) → k = fallback) := by
  have hit {f : Fin count → Bool} {k : Nat} (found : (List.ofFn f).findIdx? id = some k) :
      ∃ here : k < count, f ⟨k, here⟩ = true ∧ ∀ b : Fin count, (b : Nat) < k → f b = false := by
    obtain ⟨inside, marked, lowest⟩ := List.findIdx?_eq_some_iff_getElem.mp found
    rw [List.length_ofFn] at inside
    exact ⟨inside, by simpa using marked, fun b below => by simpa using lowest b below⟩
  have miss {f : Fin count → Bool} (none : (List.ofFn f).findIdx? id = none) (b : Fin count) : f b = false := by
    simpa using List.findIdx?_eq_none_iff.mp none (f b) (List.mem_ofFn.mpr ⟨b, rfl⟩)
  split
  · rename_i k found
    obtain ⟨here, chosen, lowest⟩ := hit found
    rw [Bool.and_eq_true] at chosen
    refine ⟨⟨k, here⟩, rfl, ⟨fun a _ _ => ⟨chosen.1, chosen.2, fun b below within => ?_⟩, fun absent => ?_⟩,
      fun none => absurd chosen.1 (none _)⟩
    · simpa [within] using lowest b below
    · rw [absent _ chosen.1] at chosen
      exact absurd chosen.2 Bool.false_ne_true
  · rename_i k none found
    obtain ⟨here, chosen, lowest⟩ := hit found
    refine ⟨⟨k, here⟩, rfl, ⟨fun a within marked => ?_, fun _ a _ => ⟨chosen, fun b below => ?_⟩⟩,
      fun none => absurd chosen (none _)⟩
    · simpa [within, marked] using miss none a
    · simpa using lowest b below
  · rename_i none
    exact ⟨fallback, rfl, ⟨fun a within => by simp [miss none a] at within,
      fun _ a within => by simp [miss none a] at within⟩, fun _ => rfl⟩

theorem chooseRow_preferred {count : Nat} (positive : 0 < count) (limit : Extended K)
    (slack : Fin count → K) (marks : Fin count → Bool) :
    ∃ k : Fin count,
      chooseRow limit (.ofVector (exactVector slack)) (.ofVector (Array.ofFn marks)) = some (k : Nat) ∧
      Ranked (fun a => Scalar.le (.finite (slack a)) limit = true) marks slack k := by
  let binds (a : Fin count) : Bool := Scalar.le (.finite (slack a)) limit
  have binding : (exactVector slack).map (fun x => Scalar.le x limit) = Array.ofFn binds := by
    rw [exactVector, Array.map_ofFn]
    rfl
  have both : Tensor.zipStretched? (· && ·) (.ofVector (Array.ofFn binds)) (.ofVector (Array.ofFn marks))
      = some (.ofVector (Array.ofFn fun a => binds a && marks a)) := by
    rw [Tensor.zipStretched?_vector _ _ _ (by simp)]
    exact congrArg (fun xs => some (Tensor.ofVector xs)) (Array.ext (by simp) fun i _ _ => by simp)
  obtain ⟨least, position, first⟩ := leastPosition_exact positive slack
  obtain ⟨k, found, preferred, fallback⟩ := search_preferred binds marks least
  refine ⟨k, ?_, preferred, fun none => fallback none ▸ first⟩
  rw [chooseRow]
  simp only [Tensor.map_ofVector, binding, both, Option.bind_eq_bind, Option.bind_some, Tensor.cells_ofVector,
    Array.toList_ofFn, position]
  exact congrArg some found

theorem scaleOf_exact [IsStrictOrderedRing K] (x : K) :
    scaleOf (Extended.finite x) = .finite (max 1 |x|) := by
  rw [scaleOf, Extended.abs_finite, Extended.one_eq, Extended.lt_finite]
  rcases lt_or_ge 1 |x| with large | small
  · rw [if_pos (decide_eq_true large), max_eq_right large.le]
  · rw [if_neg (by simpa using small), max_eq_left small]

-- A row whose multiplier is beyond the tolerance. Multipliers of another number than the rows mark none.
def Marked {α : Type} [Scalar α] (rows : Nat) (multipliers : Option (Array α)) (tolerance : α) (row : Nat) : Prop :=
  ∃ ys y, multipliers = some ys ∧ ys.size = rows ∧ ys[row]? = some y ∧ Scalar.lt tolerance (Scalar.abs y) = true

theorem preferredRows_marks {α : Type} [Scalar α] (rows : Nat) (multipliers : Option (Array α))
    (tolerance : α) : ∃ marks : Array Bool, marks.size = rows ∧
      preferredRows rows (multipliers.map .ofVector) tolerance = .ok (.ofVector marks) ∧
      ∀ i, marks[i]? = some true ↔ Marked rows multipliers tolerance i := by
  cases multipliers with
  | none => exact ⟨Array.replicate rows false, Array.size_replicate, rfl, by simp [Marked, Array.getElem?_replicate]⟩
  | some ys =>
    by_cases same : ys.size = rows
    · refine ⟨ys.map fun y => Scalar.lt tolerance (Scalar.abs y), by rwa [Array.size_map], ?_, fun i => ?_⟩
      · simp [preferredRows, Tensor.ofVector, Tensor.length?, Tensor.map, same]
      · simp [Marked, same]
    · refine ⟨Array.replicate rows false, Array.size_replicate, ?_, fun i => ?_⟩
      · simp [preferredRows, Tensor.ofVector, Tensor.length?, same]
      · simp [Marked, same, Array.getElem?_replicate]

end StateProgram

namespace RowPlan

open StateProgram

variable [Field K] [LinearOrder K] [FloorRing K]

theorem chooseAction_fixed (plan : RowPlan P) (tolerance : Extended K) (value slacks : Tensor (Extended K))
    (marks : Tensor Bool) {s : Fin n} (fixed : plan.fixed s = true) :
    plan.program.chooseAction slacks marks value tolerance (s : Nat) = .ok 0 := by
  have next := firstRow_next plan s
  rw [show plan.rowCount s = 0 from if_pos fixed] at next
  have offset (k : Nat) : plan.program.rowOffsets.getD k 0 = plan.firstRow k := rfl
  rw [chooseAction, offset, offset, if_pos (by simp [next])]
  rfl

def Binding (plan : RowPlan P) (tolerance : Extended K) (v : Fin n → K)
    (x : Σ s : Fin n, Fin (P.actionCount s)) : Prop :=
  Scalar.le (.finite (plan.slack v x)) (tolerance * .finite (max 1 |v x.1|)) = true

theorem binding_finite (plan : RowPlan P) (tolerance : K) (v : Fin n → K)
    (x : Σ s : Fin n, Fin (P.actionCount s)) :
    plan.Binding (.finite tolerance) v x ↔ plan.slack v x ≤ tolerance * max 1 |v x.1| := by
  rw [Binding, Extended.finite_mul, Extended.le_finite, decide_eq_true_eq]

theorem exists_mark (plan : RowPlan P) (multipliers : Option (Array (Extended K)))
    (tolerance : Extended K) : ∃ mark, preferredRows plan.program.matrix.height (multipliers.map .ofVector)
      tolerance = .ok (.ofVector (plan.pairs.map mark).toArray) ∧
      ∀ s : Fin n, plan.fixed s = false → ∀ a : Fin (P.actionCount s),
        mark ⟨s, a⟩ = true ↔ Marked plan.program.matrix.height multipliers tolerance (plan.firstRow s + a) := by
  obtain ⟨marks, size, marked, each⟩ := preferredRows_marks plan.program.matrix.height multipliers tolerance
  have height : plan.program.matrix.height = plan.pairs.length := List.length_map _
  have length : marks.toList.length = plan.pairs.length := by simpa using size.trans height
  obtain ⟨mark, same⟩ := exists_pairs_map plan length
  have same : marks = (plan.pairs.map mark).toArray := by rw [← same]
  refine ⟨mark, by rw [marked, same], fun s free a => ?_⟩
  rw [← each, same, row_place plan mark free a, Option.some.injEq]

variable [IsStrictOrderedRing K]

theorem chooseAction_preferred (plan : RowPlan P) (tolerance : Extended K) (v : Fin n → K)
    (mark : (Σ s : Fin n, Fin (P.actionCount s)) → Bool) {s : Fin n} (free : plan.fixed s = false) :
    ∃ k : Fin (P.actionCount s), plan.program.chooseAction
        (.ofVector (plan.pairs.map fun x => .finite (plan.slack v x)).toArray)
        (.ofVector (plan.pairs.map mark).toArray) (.ofVector (exactVector v)) tolerance (s : Nat)
          = .ok ((k : Nat) : Int) ∧
      Ranked (fun a => plan.Binding tolerance v ⟨s, a⟩) (fun a => mark ⟨s, a⟩)
        (fun a => plan.slack v ⟨s, a⟩) k := by
  have next := firstRow_next plan s
  rw [show plan.rowCount s = P.actionCount s from if_neg (by simp [free])] at next
  have covered := firstRow_le plan (s + 1)
  have positive := P.hasAction s
  obtain ⟨k, chosen, ranked⟩ := chooseRow_preferred positive (tolerance * .finite (max 1 |v s|))
    (fun a => plan.slack v ⟨s, a⟩) (fun a => mark ⟨s, a⟩)
  refine ⟨k, ?_, ranked⟩
  have offset (k : Nat) : plan.program.rowOffsets.getD k 0 = plan.firstRow k := rfl
  have value : valueAt (Tensor.ofVector (exactVector v)) (s : Nat) = some (.finite (v s)) := by
    simp [valueAt, Tensor.ofVector, exactVector]
  have slice {β : Type} (f : (Σ s : Fin n, Fin (P.actionCount s)) → β) :
      (Tensor.ofVector (plan.pairs.map f).toArray).between (plan.firstRow s) (plan.firstRow (s + 1))
        = .ofVector (Array.ofFn fun a => f ⟨s, a⟩) := by
    rw [← rows_extract plan f free]
    simp only [Tensor.between, Tensor.ofVector, Tensor.volume, List.foldl_nil, mul_one, Array.size_extract,
      List.size_toArray, List.length_map, Nat.min_eq_left covered]
  have action : entry plan.program.rowAction ((plan.firstRow s + (k : Nat) : Nat) : Int)
      = (.ok (k : Nat) : Outcome (Extended K) Nat) :=
    entry_ok.mpr (row_place plan (fun x => (x.2 : Nat)) free k)
  rw [chooseAction, offset, offset, if_neg (by simp; omega), value, Outcome.ofOption_some, Outcome.ok_bind,
    scaleOf_exact, slice, slice]
  refine (congrArg (fun x => Outcome.ofOption x >>= _) chosen).trans ?_
  rw [Outcome.ofOption_some, Outcome.ok_bind, action]
  rfl

theorem recoverPolicy_preferred (plan : RowPlan P) (tolerance : Extended K) (v : Fin n → K)
    {multipliers : Option (Array (Extended K))} {mark : (Σ s : Fin n, Fin (P.actionCount s)) → Bool}
    (marked : preferredRows plan.program.matrix.height (multipliers.map .ofVector) tolerance
      = .ok (.ofVector (plan.pairs.map mark).toArray)) :
    ∃ d : P.Selection, plan.program.recoverPolicy (.ofVector (exactVector v))
        (multipliers.map .ofVector) (some tolerance) = .ok (.stationary (P.actionArray d)) ∧
      ∀ s, plan.fixed s = false →
        Ranked (fun a => plan.Binding tolerance v ⟨s, a⟩) (fun a => mark ⟨s, a⟩)
          (fun a => plan.slack v ⟨s, a⟩) (d s) := by
  have states : plan.program.stateCount = n := by simp [stateCount, program]
  by_cases empty : plan.pairs = []
  · refine ⟨fun s => ⟨0, P.hasAction s⟩, ?_, fun s free => ?_⟩
    · rw [recoverPolicy, if_pos (by simp [program, empty]), states]
      refine congrArg (fun actions => Except.ok (Policy.stationary actions)) (Array.ext_getElem? fun i => ?_)
      rw [Array.getElem?_replicate, Process.actionArray, Array.getElem?_ofFn]
      rfl
    · have member := (mem_pairs plan ⟨s, ⟨0, P.hasAction s⟩⟩).mpr free
      rw [empty] at member
      cases member
  · have choice (s : Fin n) : ∃ k : Fin (P.actionCount s), plan.program.chooseAction
        (.ofVector (plan.pairs.map fun x => .finite (plan.slack v x)).toArray)
        (.ofVector (plan.pairs.map mark).toArray) (.ofVector (exactVector v)) tolerance (s : Nat)
          = .ok ((k : Nat) : Int) ∧
        (plan.fixed s = false →
          Ranked (fun a => plan.Binding tolerance v ⟨s, a⟩) (fun a => mark ⟨s, a⟩)
            (fun a => plan.slack v ⟨s, a⟩) k) := by
      cases fixed : plan.fixed s with
      | true => exact ⟨⟨0, P.hasAction s⟩, chooseAction_fixed plan _ _ _ _ fixed, fun free => by cases free⟩
      | false =>
        obtain ⟨k, chosen, ranked⟩ := chooseAction_preferred plan tolerance v mark fixed
        exact ⟨k, chosen, fun _ => ranked⟩
    choose d chosen ranked using choice
    refine ⟨d, ?_, ranked⟩
    rw [recoverPolicy, if_neg (by simpa [program] using empty), slacks_exact, Outcome.ofOption_some,
      Outcome.ok_bind, Outcome.ofOption_some, Outcome.ok_bind, marked, Outcome.ok_bind, states,
      Outcome.mapM_range chosen, Outcome.ok_bind, Outcome.pure_eq, List.toArray_ofFn, Process.actionArray]

theorem recoverPolicy_within (plan : RowPlan P) (tolerance : Extended K) (v : Fin n → K)
    (multipliers : Option (Array (Extended K))) :
    ∃ d : P.Selection, plan.program.recoverPolicy (.ofVector (exactVector v))
        (multipliers.map .ofVector) (some tolerance) = .ok (.stationary (P.actionArray d)) ∧
      ∀ s, plan.fixed s = false →
        ∀ a, plan.Binding tolerance v ⟨s, a⟩ → plan.Binding tolerance v ⟨s, d s⟩ := by
  obtain ⟨mark, marked, _⟩ := exists_mark plan multipliers tolerance
  obtain ⟨d, recovered, ranked⟩ := recoverPolicy_preferred plan tolerance v marked
  exact ⟨d, recovered, fun s free a binds => (ranked s free).good binds⟩

end RowPlan

theorem StateProgram.recoverPolicy_within [Field K] [LinearOrder K] [FloorRing K] [IsStrictOrderedRing K]
    (P : Process n K) (γ tolerance : K) (v : Fin n → K) (multipliers : Option (Array (Extended K)))
    (within : ∀ s, ∃ a, v s - P.actionValue γ v s a ≤ tolerance * max 1 |v s|) :
    ∃ d : P.Selection, (P.valuePlan γ).program.recoverPolicy (.ofVector (exactVector v))
        (multipliers.map .ofVector) (some (.finite tolerance)) = .ok (.stationary (P.actionArray d)) ∧
      ∀ s, v s - P.actionValue γ v s (d s) ≤ tolerance * max 1 |v s| := by
  obtain ⟨d, recovered, kept⟩ := (P.valuePlan γ).recoverPolicy_within (.finite tolerance) v multipliers
  refine ⟨d, recovered, fun s => ?_⟩
  obtain ⟨a, bound⟩ := within s
  rw [← valuePlan_slack P γ v ⟨s, _⟩] at bound ⊢
  exact (RowPlan.binding_finite _ _ _ ⟨s, d s⟩).mp (kept s rfl a ((RowPlan.binding_finite _ _ _ ⟨s, a⟩).mpr bound))

end MarkovDecision
