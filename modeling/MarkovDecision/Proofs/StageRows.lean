import MarkovDecision.Proofs.SharedStorage
import MarkovDecision.Storage.Solvers

namespace MarkovDecision

namespace Storage

variable {α : Type} [Scalar α] {m : Storage α} {v w : View} {N n k l : Nat}

section Rows

theorem rowOf_eq (shape : v.shape = [N, n]) (below : k < N) : rowOf v k = ⟨v.buffer, v.offset + k * n, [n]⟩ := by
  have inside : indexFrom N (k : Int) = some k := by
    rw [indexFrom, if_pos (Int.natCast_nonneg k), if_pos (by exact_mod_cast below), Int.toNat_natCast]
  rw [rowOf, View.row?, shape]
  dsimp only
  rw [inside]
  simp [Tensor.volume]

theorem rowOf_size (shape : v.shape = [N, n]) (below : k < N) : (rowOf v k).size = n := by
  rw [rowOf_eq shape below]
  exact View.size_vector rfl

theorem rowOf_buffer (v : View) (k : Nat) : (rowOf v k).buffer = v.buffer := by
  rw [rowOf, View.row?]
  split
  · cases indexFrom _ (k : Int) <;> rfl
  · rfl

omit [Scalar α] in
theorem isWhole_row (m : Storage α) (v : View) (k : Nat) : m.isWhole (rowOf v k) = m.isWhole v := by
  rw [isWhole, isWhole, buffer, buffer, rowOf_buffer]

theorem rowOf_apart (shape : v.shape = [N, n]) (below : k < N) (below' : l < N) (other : k ≠ l) :
    (rowOf v k).Apart (rowOf v l) := by
  intro _
  rw [rowOf_size shape below, rowOf_size shape below', rowOf_eq shape below, rowOf_eq shape below']
  dsimp only
  rcases Nat.lt_or_gt_of_ne other with before | after
  · have rows := Nat.mul_le_mul_right n (Nat.succ_le_of_lt before)
    rw [Nat.succ_mul] at rows
    omega
  · have rows := Nat.mul_le_mul_right n (Nat.succ_le_of_lt after)
    rw [Nat.succ_mul] at rows
    omega

end Rows

def valueRow (m : Storage α) (v : View) (k : Nat) : Array α := (m.reals (rowOf v k)).cells

def actionRow (m : Storage α) (p : View) (k : Nat) : Array Int := (m.wholes (rowOf p k)).cells

-- What a caller lends to value iteration: reals with a row per stage and one more, and whole numbers with a row per
-- stage if there is any room for actions.
structure Lends (m : Storage α) (horizon n : Nat) (v : View) (actions : Option View) : Prop where
  shape : v.shape = [horizon + 1, n]
  real : m.isWhole v = false
  room : (m.reals v).cells.size = (horizon + 1) * n
  decisions : ∀ p, actions = some p →
    p.shape = [horizon, n] ∧ m.isWhole p = true ∧ (m.wholes p).cells.size = horizon * n

-- The same row by row. Without room for actions there is nothing that could be overwritten.
structure Fits (horizon n : Nat) (v p : View) (optimise : Bool) (m : Storage α) : Prop where
  shape : v.shape = [horizon + 1, n]
  real : m.isWhole v = false
  values : ∀ k ≤ horizon, (m.valueRow v k).size = n
  apart : ∀ k l, (rowOf v k).Apart (rowOf p l)
  chosen : optimise = true → p.shape = [horizon, n] ∧ m.isWhole p = true ∧ ∀ k < horizon, (m.actionRow p k).size = n

theorem reals_size (m : Storage α) (v : View) : (m.reals v).cells.size = (m.wholes v).cells.size := by
  rw [reals, wholes]
  cases m.buffer v <;> simp

theorem extract_row {β : Type} (cells : Array β) (first : Nat) (below : k < N) :
    cells.extract (first + k * n) (first + k * n + n)
      = (cells.extract first (first + N * n)).extract (k * n) (k * n + n) := by
  have rows := Nat.mul_le_mul_right n (Nat.succ_le_of_lt below)
  rw [Nat.succ_mul] at rows
  rw [Array.extract_extract, Nat.min_eq_left (by omega), Nat.add_assoc]

theorem valueRow_extract (shape : v.shape = [N, n]) (below : k < N) :
    m.valueRow v k = (m.reals v).cells.extract (k * n) (k * n + n) := by
  have same : m.buffer ⟨v.buffer, v.offset + k * n, [n]⟩ = m.buffer v := rfl
  rw [valueRow, rowOf_eq shape below, reals, reals, View.size_vector rfl, View.size_matrix shape, same]
  cases m.buffer v with
  | reals cells => exact extract_row cells v.offset below
  | wholes cells =>
    dsimp only
    rw [extract_row cells v.offset below, Array.map_extract]

theorem actionRow_extract (shape : v.shape = [N, n]) (below : k < N) :
    m.actionRow v k = (m.wholes v).cells.extract (k * n) (k * n + n) := by
  have same : m.buffer ⟨v.buffer, v.offset + k * n, [n]⟩ = m.buffer v := rfl
  rw [actionRow, rowOf_eq shape below, wholes, wholes, View.size_vector rfl, View.size_matrix shape, same]
  cases m.buffer v with
  | wholes cells => exact extract_row cells v.offset below
  | reals cells =>
    dsimp only
    rw [extract_row cells v.offset below, Array.map_extract]

theorem valueRow_size (shape : v.shape = [N, n]) (room : (m.reals v).cells.size = N * n) (below : k < N) :
    (m.valueRow v k).size = n := by
  have rows := Nat.mul_le_mul_right n (Nat.succ_le_of_lt below)
  rw [Nat.succ_mul] at rows
  rw [valueRow_extract shape below, Array.size_extract, room]
  omega

theorem actionRow_size (shape : v.shape = [N, n]) (room : (m.wholes v).cells.size = N * n) (below : k < N) :
    (m.actionRow v k).size = n :=
  (reals_size m (rowOf v k)).symm.trans (valueRow_size shape ((reals_size m v).trans room) below)

theorem Lends.buffers {horizon : Nat} {actions : Option View} (lends : m.Lends horizon n v actions) :
    ∀ p ∈ actions, p.buffer ≠ v.buffer := by
  intro p member same
  obtain ⟨_, whole, _⟩ := lends.decisions p member
  have real := lends.real
  rw [isWhole, buffer, ← same] at real
  rw [isWhole, buffer, real] at whole
  cases whole

theorem Lends.fits {horizon : Nat} {actions : Option View} (lends : m.Lends horizon n v actions) {optimise : Bool}
    (some : optimise = true → ∃ p, actions = some p) :
    m.Fits horizon n v (actions.getD ⟨v.buffer, 0, [0]⟩) optimise := by
  refine ⟨lends.shape, lends.real, fun k inside => valueRow_size lends.shape lends.room (by omega), fun k l => ?_,
    fun chosen => ?_⟩
  · cases actions with
    | none =>
      intro _
      exact Or.inr (Nat.zero_le _)
    | some p =>
      intro same
      rw [rowOf_buffer, Option.getD_some, rowOf_buffer] at same
      exact absurd same.symm (lends.buffers p rfl)
  · obtain ⟨p, rfl⟩ := some chosen
    obtain ⟨shape, whole, room⟩ := lends.decisions p rfl
    exact ⟨shape, whole, fun k below => actionRow_size shape room below⟩

section Writes

variable {p : View} {horizon t s : Nat} {optimise : Bool} {y : α} {a : Int}

theorem Fits.valueRow_value (fits : m.Fits horizon n v p optimise) (stage : t ≤ horizon) (state : s < n)
    (inside : k ≤ horizon) : (m.putCell (rowOf v t) s y a).valueRow v k
      = if k = t then (m.valueRow v k).setIfInBounds s y else m.valueRow v k := by
  have size : (rowOf v t).size = n := rowOf_size fits.shape (Nat.lt_succ_of_le stage)
  by_cases here : k = t
  · subst here
    rw [if_pos rfl]
    exact reals_putCell ((isWhole_row m v k).trans fits.real) (by omega)
  · rw [if_neg here]
    exact congrArg Tensor.cells (reals_putCell_apart
      (rowOf_apart fits.shape (Nat.lt_succ_of_le inside) (Nat.lt_succ_of_le stage) here) (by omega))

theorem Fits.actionRow_value (fits : m.Fits horizon n v p optimise) (stage : t ≤ horizon) (state : s < n) (k : Nat) :
    (m.putCell (rowOf v t) s y a).actionRow p k = m.actionRow p k := by
  have size : (rowOf v t).size = n := rowOf_size fits.shape (Nat.lt_succ_of_le stage)
  exact congrArg Tensor.cells (wholes_putCell_apart (fits.apart t k).symm (by omega))

theorem Fits.valueRow_action (fits : m.Fits horizon n v p true) (stage : t < horizon) (state : s < n) (k : Nat) :
    (m.putCell (rowOf p t) s y a).valueRow v k = m.valueRow v k := by
  have size : (rowOf p t).size = n := rowOf_size (fits.chosen rfl).1 stage
  exact congrArg Tensor.cells (reals_putCell_apart (fits.apart k t) (by omega))

theorem Fits.actionRow_action (fits : m.Fits horizon n v p true) (stage : t < horizon) (state : s < n)
    (inside : k < horizon) : (m.putCell (rowOf p t) s y a).actionRow p k
      = if k = t then (m.actionRow p k).setIfInBounds s a else m.actionRow p k := by
  obtain ⟨shape, whole, _⟩ := fits.chosen rfl
  have size : (rowOf p t).size = n := rowOf_size shape stage
  by_cases here : k = t
  · subst here
    rw [if_pos rfl]
    exact wholes_putCell ((isWhole_row m p k).trans whole) (by omega)
  · rw [if_neg here]
    exact congrArg Tensor.cells (wholes_putCell_apart (rowOf_apart shape inside stage here) (by omega))

theorem Fits.putValue (fits : m.Fits horizon n v p optimise) (stage : t ≤ horizon) (state : s < n) :
    (m.putCell (rowOf v t) s y a).Fits horizon n v p optimise where
  shape := fits.shape
  real := putCell_isWhole.trans fits.real
  values k inside := by
    rw [fits.valueRow_value stage state inside]
    split
    · exact Array.size_setIfInBounds.trans (fits.values k inside)
    · exact fits.values k inside
  apart := fits.apart
  chosen some := by
    obtain ⟨shape, whole, sizes⟩ := fits.chosen some
    refine ⟨shape, putCell_isWhole.trans whole, fun k below => ?_⟩
    rw [fits.actionRow_value stage state]
    exact sizes k below

theorem Fits.putAction (fits : m.Fits horizon n v p true) (stage : t < horizon) (state : s < n) :
    (m.putCell (rowOf p t) s y a).Fits horizon n v p true where
  shape := fits.shape
  real := putCell_isWhole.trans fits.real
  values k inside := by
    rw [fits.valueRow_action stage state]
    exact fits.values k inside
  apart := fits.apart
  chosen _ := by
    obtain ⟨shape, whole, sizes⟩ := fits.chosen rfl
    refine ⟨shape, putCell_isWhole.trans whole, fun k below => ?_⟩
    rw [fits.actionRow_action stage state below]
    split
    · exact Array.size_setIfInBounds.trans (sizes k below)
    · exact sizes k below

def putFound (v p : View) (t s : Nat) (found : α × Option Int) (m : Storage α) : Storage α :=
  match found.2 with
  | none => m.putCell (rowOf v t) s found.1 0
  | some a => (m.putCell (rowOf v t) s found.1 0).putCell (rowOf p t) s (Scalar.ofInt a) a

variable {found : α × Option Int}

theorem Fits.putFound (fits : m.Fits horizon n v p found.2.isSome) (stage : t < horizon) (state : s < n) :
    (m.putFound v p t s found).Fits horizon n v p found.2.isSome := by
  obtain ⟨x, _ | a⟩ := found
  · exact fits.putValue stage.le state
  · exact (fits.putValue stage.le state).putAction stage state

theorem Fits.valueRow_found (fits : m.Fits horizon n v p found.2.isSome) (stage : t < horizon) (state : s < n)
    (inside : k ≤ horizon) : (m.putFound v p t s found).valueRow v k
      = if k = t then (m.valueRow v k).setIfInBounds s found.1 else m.valueRow v k := by
  obtain ⟨x, _ | a⟩ := found
  · exact fits.valueRow_value stage.le state inside
  · rw [Storage.putFound, (fits.putValue stage.le state).valueRow_action stage state]
    exact fits.valueRow_value stage.le state inside

theorem Fits.actionRow_found (fits : m.Fits horizon n v p found.2.isSome) (stage : t < horizon) (state : s < n)
    (inside : k < horizon) (i : Nat) : ((m.putFound v p t s found).actionRow p k)[i]?
      = if k = t ∧ i = s then found.2.or (m.actionRow p k)[i]? else (m.actionRow p k)[i]? := by
  obtain ⟨x, _ | a⟩ := found
  · exact (congrArg (·[i]?) (fits.actionRow_value stage.le state k)).trans (ite_id _).symm
  · have size : (m.actionRow p k).size = n := (fits.chosen rfl).2.2 k inside
    rw [Storage.putFound, (fits.putValue stage.le state).actionRow_action stage state inside,
      fits.actionRow_value stage.le state]
    by_cases row : k = t
    · rw [if_pos row, Array.getElem?_setIfInBounds]
      by_cases cell : s = i
      · subst cell
        rw [if_pos rfl, if_pos (by omega), if_pos ⟨row, rfl⟩]
        rfl
      · rw [if_neg cell, if_neg fun both => cell both.2.symm]
    · rw [if_neg row, if_neg fun both => row both.1]

theorem Fits.holds (fits : m.Fits horizon n v p optimise) (stage : t ≤ horizon) : (rowOf v t).Holds n :=
  ⟨n, by rw [rowOf_eq fits.shape (Nat.lt_succ_of_le stage)], le_rfl⟩

theorem Fits.reads (fits : m.Fits horizon n v p optimise) (stage : t < horizon) :
    Reads (rowOf v (t + 1)) (rowOf v t) (m.valueRow v (t + 1)) m where
  reads := by
    have shape : (rowOf v (t + 1)).shape = [n] := by rw [rowOf_eq fits.shape (Nat.succ_lt_succ stage)]
    exact read_cells shape (fits.values (t + 1) stage)
  real := (isWhole_row m v t).trans fits.real

theorem Fits.stage_value (model : Model α) (fits : m.Fits horizon model.stateCount v p optimise) (stage : t < horizon) :
    ((stageMemory model optimise horizon v p).stage t).value m = Reader.ofArray (m.valueRow v (t + 1)) := by
  have reads := (fits.reads stage).reads
  cases model <;> cases optimise <;> exact reads

theorem Fits.stage_keeps (model : Model α) (fits : m.Fits horizon model.stateCount v p true) (stage : t < horizon) :
    ((stageMemory model true horizon v p).stage t).Keeps model.stateCount (m.valueRow v (t + 1))
      (Reads (rowOf v (t + 1)) (rowOf v t) (m.valueRow v (t + 1))) (fun s y x => x.putCell (rowOf v t) s y 0)
      (fun s a x => x.putCell (rowOf p t) s (Scalar.ofInt a) a) := by
  have apart : (rowOf v (t + 1)).Apart (rowOf v t) :=
    rowOf_apart fits.shape (Nat.succ_lt_succ stage) (Nat.lt_succ_of_lt stage) (Nat.succ_ne_self t)
  have room : (rowOf p t).Holds model.stateCount := ⟨_, by rw [rowOf_eq (fits.chosen rfl).1 stage], le_rfl⟩
  cases model with
  | table _ => exact checkedMemory_keeps (fits.holds stage.le) room apart (fits.apart (t + 1) t)
  | flat _ =>
    exact rawMemory_keeps (fun _ ready => ready.reads) (fits.holds stage.le) room apart (fits.apart (t + 1) t)

theorem Fits.stage_follows (model : Model α) (fits : m.Fits horizon model.stateCount v p false) (stage : t < horizon)
    (state : s < model.stateCount) (value : α) : (InPlace.update (((stageMemory model false horizon v p).stage
      t).putValue s value)).runOn m = (.ok (), m.putFound v p t s (value, none)) := by
  have apart : (rowOf v (t + 1)).Apart (rowOf v t) :=
    rowOf_apart fits.shape (Nat.succ_lt_succ stage) (Nat.lt_succ_of_lt stage) (Nat.succ_ne_self t)
  have keeps : (checkedMemory (rowOf v (t + 1)) (rowOf v t) (rowOf v t)).Keeps model.stateCount
      (m.valueRow v (t + 1)) (Reads (rowOf v (t + 1)) (rowOf v t) (m.valueRow v (t + 1))) _ _ :=
    checkedMemory_keeps (fits.holds stage.le) (fits.holds stage.le) apart apart
  have written := InPlace.runOn_update (keeps.value s state value m (fits.reads stage)).1
  cases model <;> exact written

theorem Fits.fill (fits : m.Fits horizon n v p optimise) (xs : List α) :
    (m.fill (rowOf v horizon) xs).Fits horizon n v p optimise ∧
      (∀ i < n, ((m.fill (rowOf v horizon) xs).valueRow v horizon)[i]? = xs[i]?.or (m.valueRow v horizon)[i]?) ∧
      ∀ k < horizon, (m.fill (rowOf v horizon) xs).valueRow v k = m.valueRow v k ∧
        (m.fill (rowOf v horizon) xs).actionRow p k = m.actionRow p k := by
  have size : (rowOf v horizon).size = n := rowOf_size fits.shape (Nat.lt_succ_self horizon)
  have actions (k : Nat) : (m.fill (rowOf v horizon) xs).actionRow p k = m.actionRow p k :=
    congrArg Tensor.cells (wholes_fill_apart (fits.apart horizon k).symm xs)
  refine ⟨⟨fits.shape, (isWhole_fill xs).trans fits.real, fun k inside => (size_fill xs).trans (fits.values k inside),
    fits.apart, fun some => ?_⟩, fun i below => ?_, fun k below => ⟨?_, actions k⟩⟩
  · obtain ⟨shape, whole, sizes⟩ := fits.chosen some
    refine ⟨shape, (isWhole_fill xs).trans whole, fun k below => ?_⟩
    rw [actions]
    exact sizes k below
  · exact reals_fill ((isWhole_row m v horizon).trans fits.real) ((fits.values horizon le_rfl).trans size.symm) xs i
      (by omega)
  · exact congrArg Tensor.cells
      (reals_fill_apart (rowOf_apart fits.shape (Nat.lt_succ_of_lt below) (Nat.lt_succ_self horizon) below.ne) xs)

end Writes

end Storage

end MarkovDecision
