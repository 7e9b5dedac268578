import MarkovDecision.Proofs.PairedRuns

namespace MarkovDecision

theorem row_ext {β : Type} {xs ys : Array β} {n : Nat} (size : xs.size = n) (size' : ys.size = n)
    (cells : ∀ i < n, xs[i]? = ys[i]?) : xs = ys := by
  refine Array.ext_getElem? fun i => ?_
  by_cases below : i < n
  · exact cells i below
  · rw [Array.getElem?_eq_none (by omega), Array.getElem?_eq_none (by omega)]

namespace Stages

variable {α : Type} {horizon n t s : Nat} {b : Stages α}

structure Sized (horizon n : Nat) (b : Stages α) : Prop where
  rows : b.values.size = horizon + 1
  values : ∀ k ≤ horizon, (b.valueRow k).size = n
  stages : b.actions.size = horizon
  actions : ∀ k < horizon, (b.actions.getD k #[]).size = n

theorem Sized.ready (sized : b.Sized horizon n) (stage : t < horizon) : b.Ready t n (b.valueRow (t + 1)) :=
  ⟨rfl, sized.values t stage.le, sized.actions t stage⟩

theorem Sized.setValue (sized : b.Sized horizon n) (t s : Nat) (y : α) : (setValue t s y b).Sized horizon n where
  rows := Array.size_modify.trans sized.rows
  values k inside := by
    rw [setValue_row]
    split
    · exact Array.size_setIfInBounds.trans (sized.values k inside)
    · exact sized.values k inside
  stages := sized.stages
  actions := sized.actions

theorem Sized.setAction (sized : b.Sized horizon n) (t s : Nat) (a : Int) : (setAction t s a b).Sized horizon n where
  rows := sized.rows
  values := sized.values
  stages := Array.size_modify.trans sized.stages
  actions k below := by
    rw [setAction_row]
    split
    · exact Array.size_setIfInBounds.trans (sized.actions k below)
    · exact sized.actions k below

def putFound (t s : Nat) (found : α × Option Int) (b : Stages α) : Stages α :=
  match found.2 with
  | none => setValue t s found.1 b
  | some a => setAction t s a (setValue t s found.1 b)

variable {found : α × Option Int} {k i : Nat}

theorem Sized.putFound (sized : b.Sized horizon n) (t s : Nat) : (putFound t s found b).Sized horizon n := by
  obtain ⟨y, _ | a⟩ := found
  · exact sized.setValue t s y
  · exact (sized.setValue t s y).setAction t s a

theorem putFound_row (t s : Nat) : (putFound t s found b).valueRow k
    = if t = k then (b.valueRow k).setIfInBounds s found.1 else b.valueRow k := by
  obtain ⟨y, _ | a⟩ := found
  · exact setValue_row t s y b k
  · exact setValue_row t s y b k

theorem Sized.putFound_action (sized : b.Sized horizon n) (state : s < n) (below : k < horizon) :
    ((Stages.putFound t s found b).actions.getD k #[])[i]?
      = if k = t ∧ i = s then found.2.or (b.actions.getD k #[])[i]? else (b.actions.getD k #[])[i]? := by
  have size := sized.actions k below
  obtain ⟨y, _ | a⟩ := found
  · exact (ite_id _).symm
  · change ((Stages.setAction t s a (Stages.setValue t s y b)).actions.getD k #[])[i]? = _
    rw [setAction_row]
    change (if t = k then (b.actions.getD k #[]).setIfInBounds s a else b.actions.getD k #[])[i]? = _
    by_cases row : t = k
    · rw [if_pos row, Array.getElem?_setIfInBounds]
      by_cases cell : s = i
      · rw [if_pos cell, if_pos (by omega), if_pos ⟨row.symm, cell.symm⟩]
        rfl
      · rw [if_neg cell, if_neg fun both => cell both.2.symm]
    · rw [if_neg row, if_neg fun both => row both.1.symm]

theorem zeros_sized [Scalar α] (horizon n : Nat) : (zeros horizon n : Stages α).Sized horizon n where
  rows := Array.size_replicate
  values k inside := by simp [valueRow, zeros, Array.getD, Nat.lt_succ_of_le inside]
  stages := Array.size_replicate
  actions k below := by simp [zeros, Array.getD, below]

theorem putTerminal_row (sized : b.Sized horizon n) (last : Array α) (k : Nat) :
    (Stages.memory.putTerminal last b).valueRow k = if k = horizon then last else b.valueRow k := by
  have place : b.values.size - 1 = horizon := by rw [sized.rows, Nat.add_sub_cancel]
  change (b.values.setIfInBounds (b.values.size - 1) last).getD k #[] = _
  rw [place, Array.getD_eq_getD_getElem?, Array.getElem?_setIfInBounds, sized.rows]
  by_cases here : k = horizon
  · rw [if_pos here, if_pos here.symm, if_pos (Nat.lt_succ_self _), Option.getD_some]
  · rw [if_neg here, if_neg (Ne.symm here), valueRow, Array.getD_eq_getD_getElem?]

theorem Sized.putTerminal (sized : b.Sized horizon n) {last : Array α} (whole : last.size = n) :
    (Stages.memory.putTerminal last b).Sized horizon n where
  rows := Array.size_setIfInBounds.trans sized.rows
  values k inside := by
    rw [putTerminal_row sized]
    split
    · exact whole
    · exact sized.values k inside
  stages := sized.stages
  actions := sized.actions

end Stages

def TerminalValue.WellShaped {α : Type} : TerminalValue α → Prop
  | .array (.ok t) => t.cells.size = Tensor.volume t.shape
  | _ => True

theorem TerminalValue.WellShaped.size {α : Type} [Scalar α] {terminal : TerminalValue α} (shaped : terminal.WellShaped)
    {n : Nat} {last : Array α} (known : terminal.vector n = .ok last) : last.size = n := by
  cases terminal with
  | zero =>
    cases known
    exact Array.size_replicate
  | array data =>
    obtain ⟨t, rfl, read⟩ := Outcome.bind_ok.mp known
    obtain ⟨shape, same⟩ := Outcome.unless_ok.mp read
    cases same
    have cells : t.cells.size = Tensor.volume t.shape := shaped
    rw [cells, bne_eq_false_iff_eq.mp shape]
    simp [Tensor.volume]
  | function f =>
    obtain ⟨xs, found, same⟩ := Outcome.bind_ok.mp known
    cases same
    simpa using (Outcome.mapM_forall₂ found).length_eq.symm

namespace Storage

variable {α : Type} [Scalar α] {m : Model α} {x before : Storage α} {b : Stages α} {v w p : View}
  {horizon n t s k : Nat} {optimise : Bool}

section Elsewhere

variable {found : α × Option Int}

theorem putCell_elsewhere (other : w.buffer ≠ v.buffer) (l : Nat) (y : α) (a : Int) :
    (x.putCell v l y a).buffer w = x.buffer w := by
  rw [putCell_buffer, if_neg (Ne.symm other)]

theorem putFound_elsewhere (values : w.buffer ≠ v.buffer) (actions : found.2.isSome = true → w.buffer ≠ p.buffer) :
    (x.putFound v p t s found).buffer w = x.buffer w := by
  have row : w.buffer ≠ (rowOf v t).buffer := by rwa [rowOf_buffer]
  obtain ⟨y, _ | a⟩ := found
  · exact putCell_elsewhere row s y 0
  · have row' : w.buffer ≠ (rowOf p t).buffer := by
      rw [rowOf_buffer]
      exact actions rfl
    exact (putCell_elsewhere row' s _ a).trans (putCell_elsewhere row s y 0)

theorem fill_elsewhere (other : w.buffer ≠ v.buffer) (xs : List α) : (x.fill v xs).buffer w = x.buffer w :=
  fill_keeps (fun y => y.buffer w = x.buffer w)
    (fun _ _ _ _ same _ => (putCell_elsewhere other _ _ _).trans same) rfl xs

end Elsewhere

-- Backward induction has come to a state of a stage, in a caller's storage and in rows of its own. What has been
-- written is the same in both, and no other buffer has changed.
structure Mirrors (before : Storage α) (horizon n : Nat) (v p : View) (optimise : Bool) (t s : Nat) (x : Storage α)
    (b : Stages α) : Prop where
  fits : x.Fits horizon n v p optimise
  sized : b.Sized horizon n
  values : ∀ k ≤ horizon, ∀ i < n, t < k ∨ k = t ∧ i < s → (x.valueRow v k)[i]? = (b.valueRow k)[i]?
  actions : optimise = true → ∀ k < horizon, ∀ i < n, t < k ∨ k = t ∧ i < s →
    (x.actionRow p k)[i]? = (b.actions.getD k #[])[i]?
  elsewhere : ∀ w : View, w.buffer ≠ v.buffer → (optimise = true → w.buffer ≠ p.buffer) → x.buffer w = before.buffer w

section Steps

theorem Mirrors.valueRow_same (mirrors : before.Mirrors horizon n v p optimise t s x b) (inside : k ≤ horizon)
    (done : ∀ i < n, t < k ∨ k = t ∧ i < s) : x.valueRow v k = b.valueRow k := by
  refine row_ext (mirrors.fits.values k inside) (mirrors.sized.values k inside) fun i below => ?_
  exact mirrors.values k inside i below (done i below)

theorem Mirrors.actionRow_same (mirrors : before.Mirrors horizon n v p true t s x b) (below : k < horizon)
    (done : ∀ i < n, t < k ∨ k = t ∧ i < s) : x.actionRow p k = b.actions.getD k #[] := by
  obtain ⟨_, _, sizes⟩ := mirrors.fits.chosen rfl
  refine row_ext (sizes k below) (mirrors.sized.actions k below) fun i inside => ?_
  exact mirrors.actions rfl k below i inside (done i inside)

theorem Mirrors.next_state (found : α × Option Int)
    (mirrors : before.Mirrors horizon n v p found.2.isSome t s x b) (stage : t < horizon) (state : s < n) :
    before.Mirrors horizon n v p found.2.isSome t (s + 1) (x.putFound v p t s found) (b.putFound t s found) := by
  have fits := mirrors.fits
  have sized := mirrors.sized
  refine ⟨fits.putFound stage state, sized.putFound t s, fun k inside i below position => ?_,
    fun some k below i inside position => ?_, fun w values actions => ?_⟩
  · rw [fits.valueRow_found stage state inside, Stages.putFound_row]
    by_cases row : k = t
    · rw [if_pos row, if_pos row.symm, Array.getElem?_setIfInBounds, Array.getElem?_setIfInBounds,
        fits.values k inside, sized.values k inside]
      by_cases cell : s = i
      · rw [if_pos cell, if_pos cell]
      · rw [if_neg cell, if_neg cell]
        exact mirrors.values k inside i below (by omega)
    · rw [if_neg row, if_neg (Ne.symm row)]
      exact mirrors.values k inside i below (by omega)
  · rw [fits.actionRow_found stage state below, sized.putFound_action state below]
    by_cases here : k = t ∧ i = s
    · obtain ⟨a, chosen⟩ := Option.isSome_iff_exists.mp some
      rw [if_pos here, if_pos here, chosen]
      rfl
    · rw [if_neg here, if_neg here]
      exact mirrors.actions some k below i inside (by omega)
  · exact (putFound_elsewhere values actions).trans (mirrors.elsewhere w values actions)

theorem Mirrors.stage_before (mirrors : before.Mirrors horizon n v p optimise (t + 1) n x b) :
    before.Mirrors horizon n v p optimise t 0 x b where
  fits := mirrors.fits
  sized := mirrors.sized
  values k inside i below position := mirrors.values k inside i below (by omega)
  actions some k below i inside position := mirrors.actions some k below i inside (by omega)
  elsewhere := mirrors.elsewhere

theorem Fits.mirrors_end (fits : before.Fits horizon n v p optimise) {last : Array α} (whole : last.size = n) :
    before.Mirrors horizon n v p optimise horizon n (before.fill (rowOf v horizon) last.toList)
      (Stages.memory.putTerminal last (Stages.zeros horizon n)) := by
  have sized : (Stages.zeros horizon n : Stages α).Sized horizon n := Stages.zeros_sized horizon n
  obtain ⟨room, placed, _⟩ := fits.fill last.toList
  refine ⟨room, sized.putTerminal whole, fun k inside i below position => ?_, fun _ k below i _ position => by omega,
    fun w other _ => fill_elsewhere (by rwa [rowOf_buffer]) _⟩
  obtain rfl : k = horizon := by omega
  have cell : last[i]? = some last[i] := Array.getElem?_eq_getElem (whole ▸ below)
  rw [Stages.putTerminal_row sized, if_pos rfl, placed i below, Array.getElem?_toList, cell]
  rfl

theorem stages_alike (m : Model α) (before : Storage α) (horizon : Nat) (v p : View) (optimise : Bool) :
    (stageMemory m optimise horizon v p).Alike Stages.memory horizon m.stateCount optimise
      (before.Mirrors horizon m.stateCount v p optimise) where
  reads t stage s _ x b mirrors := by
    rw [mirrors.fits.stage_value m stage, mirrors.valueRow_same stage fun _ _ => Or.inl (Nat.lt_succ_self t)]
    rfl
  chosen some t stage s state c x b mirrors := by
    subst some
    have stored := ((mirrors.fits.stage_keeps m stage).write_runOn state c (mirrors.fits.reads stage)).1
    have kept := ((Stages.memory_keeps t m.stateCount _).write_runOn state c (mirrors.sized.ready stage)).1
    rw [stored, kept]
    exact .ended (mirrors.next_state (c.1, some c.2) stage state)
  followed none t stage s state value x b mirrors := by
    subst none
    have kept := InPlace.runOn_update ((Stages.memory_keeps t m.stateCount _).value s state value b
      (mirrors.sized.ready stage)).1
    rw [mirrors.fits.stage_follows m stage state value, kept]
    exact .ended (mirrors.next_state (value, none) stage state)
  rows t stage x b mirrors :=
    congrArg Array.toList (mirrors.valueRow_same stage.le fun i below => Or.inr ⟨rfl, below⟩)
  before t x b mirrors := mirrors.stage_before

end Steps

end Storage

end MarkovDecision
