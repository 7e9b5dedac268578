import MarkovDecision.LinearProgram.Assembly
import MarkovDecision.Proofs.FlatArrays
import MarkovDecision.Proofs.SparseRows

namespace MarkovDecision

variable {n : Nat} {K : Type}

theorem rows?_ofRows (rows : List (Fin n → K)) :
    (Tensor.ofRows n (rows.map exactVector).toArray).rows? = some (rows.map exactVector).toArray := by
  let pieces := rows.map fun a => (exactVector a).toList
  have cells : (Tensor.ofRows n (rows.map exactVector).toArray).cells = pieces.flatten.toArray := by
    rw [Tensor.ofRows]
    dsimp only
    rw [List.foldl_toArray, foldl_append, Array.empty_append, List.map_map]
    rfl
  have start (i : Nat) (within : i ≤ rows.length) : (offsets (pieces.map List.length)).getD i 0 = i * n := by
    have lengths : pieces.map List.length = List.replicate rows.length n := by
      simp [pieces, Function.comp_def]
    rw [lengths, offsets_getD _ (by simpa using within), List.take_replicate, List.sum_replicate,
      Nat.min_eq_left within, smul_eq_mul]
  have piece (i : Nat) (inside : i < rows.length) :
      pieces.flatten.toArray.extract (i * n) (i * n + n) = exactVector rows[i] := by
    have cut := extract_flatten pieces (k := i) (by simpa [pieces] using inside)
    rw [start i inside.le, start (i + 1) inside, Nat.succ_mul] at cut
    simpa [pieces] using cut
  change some ((Array.range _).map _) = _
  refine congrArg some (Array.ext (by simp) fun i inside _ => ?_)
  rw [Array.getElem_map, Array.getElem_range, cells, piece i (by simpa using inside)]
  simp

namespace SparseRow

def vectorEntries (a : Fin n → K) : List (Nat × K) := List.ofFn fun i => ((i : Nat), a i)

variable [Field K]

theorem vectorEntries_weigh (a : Fin n → K) (f : Nat → K) : weigh (vectorEntries a) f = ∑ i, a i * f i := by
  rw [weigh, vectorEntries, List.map_ofFn, List.sum_ofFn]
  rfl

variable [LinearOrder K] [FloorRing K]

def ofVector (a : Fin n → K) : SparseRow (Extended K) := (exactEntries (vectorEntries a)).dropZeros

theorem ofVector_holds (a : Fin n → K) : ∃ es, Holds (ofVector a) (vectorEntries a) es := by
  refine dropZeros_holds ⟨rfl, ?_, fun _ => rfl, fun e member => ⟨e, member, rfl⟩⟩
  rw [vectorEntries, List.pairwise_ofFn]
  exact fun _ _ below => below

theorem ofVector_dot (a x : Fin n → K) : (ofVector a).dot (exactVector x) = .finite (∑ i, a i * x i) := by
  obtain ⟨es, holds⟩ := ofVector_holds a
  have inside : ∀ e ∈ vectorEntries a, e.1 < n := by
    rw [vectorEntries, List.forall_mem_ofFn_iff]
    exact fun i => i.isLt
  rw [dot_exact holds inside, vectorEntries_weigh]
  simp only [padded_fin]

theorem ofVector_get (a : Fin n → K) (i : Fin n) : (ofVector a).get i = .finite (a i) := by
  obtain ⟨es, holds⟩ := ofVector_holds a
  rw [get_exact holds, vectorEntries_weigh]
  simp [← Fin.ext_iff]

end SparseRow

variable [Field K] [LinearOrder K] [FloorRing K]

theorem sparseOf_ofRows (rows : List (Fin n → K)) :
    sparseOf (.ofRows n (rows.map exactVector).toArray) = .ok ⟨n, rows.map SparseRow.ofVector⟩ := by
  have opened (t : Tensor (Extended K)) (m : Nat) (shape : t.shape = [m, n]) : sparseOf t = (do
      let cells ← Outcome.ofOption t.rows?
      return ⟨n, cells.toList.map fun row => SparseRow.dropZeros (row.toList.zipIdx.map fun (x, i) => (i, x))⟩) := by
    rw [sparseOf, shape]
  have stored (a : Fin n → K) : (exactVector a).toList.zipIdx.map (fun (x, i) => (i, x))
      = SparseRow.exactEntries (SparseRow.vectorEntries a) := by
    rw [exactVector, Array.toList_ofFn, zipIdx_ofFn, List.map_ofFn, SparseRow.exactEntries,
      SparseRow.vectorEntries, List.map_ofFn]
    rfl
  rw [opened _ _ rfl, rows?_ofRows, Outcome.ofOption_some, Outcome.ok_bind, Outcome.pure_eq, List.map_map]
  refine congrArg (fun rows => Except.ok (SparseMatrix.mk n rows)) (List.map_congr_left fun a _ => ?_)
  exact congrArg SparseRow.dropZeros (stored a)

end MarkovDecision
