import MarkovDecision.Proofs.Execution

namespace MarkovDecision

namespace Schedule

theorem cut_flatten (lengths states : List Nat) (enough : states.length ≤ lengths.sum) :
    (cut lengths states).flatten = states := by
  induction lengths generalizing states with
  | nil =>
    have empty : states = [] := List.length_eq_zero_iff.mp (Nat.le_zero.mp enough)
    rw [empty]
    rfl
  | cons k rest ih =>
    rw [List.sum_cons] at enough
    rw [cut, List.flatten_cons, ih _ (by rw [List.length_drop]; omega), List.take_append_drop]

theorem chunkLengths_sum (n : Nat) {c : Nat} (positive : 0 < c) : (chunkLengths n c).sum = n := by
  have general : ∀ k ≤ c, ((List.range k).map fun i => if i < n % c then n / c + 1 else n / c).sum
      = k * (n / c) + min k (n % c) := by
    intro k
    induction k with
    | zero => simp
    | succ k ih =>
      intro within
      rw [List.range_succ, List.map_append, List.sum_append, ih (by omega), List.map_singleton,
        List.sum_singleton, Nat.succ_mul]
      split <;> omega
  have bound := Nat.mod_lt n positive
  rw [chunkLengths, general c (Nat.le_refl c), Nat.min_eq_right bound.le, Nat.div_add_mod]

theorem chunks_flatten {α : Type} {s : Schedule} {n : Nat} {parts : List (List Nat)}
    (made : (s.chunks n : Outcome α (List (List Nat))) = .ok parts) : parts.flatten = List.range n := by
  cases s with
  | serial =>
    cases made
    exact List.flatten_singleton
  | chunked count capacity =>
    simp only [chunks] at made
    split at made
    · cases made
      refine cut_flatten _ _ ?_
      rw [chunkLengths_sum n (by omega), List.length_range]
    · cases made

end Schedule

section Runs

variable {α σ : Type} {step : Nat → InPlace σ α Unit} {next : Nat → σ → σ} {valid : σ → Prop}

theorem forM_steps (states : List Nat)
    (steps : ∀ s ∈ states, ∀ m, valid m → (step s).runOn m = (.ok (), next s m) ∧ valid (next s m))
    {start : σ} (ready : valid start) :
    (states.forM step).runOn start = (.ok (), states.foldl (fun m s => next s m) start) ∧
      valid (states.foldl (fun m s => next s m) start) := by
  induction states generalizing start with
  | nil => exact ⟨rfl, ready⟩
  | cons s rest ih =>
    obtain ⟨done, after⟩ := steps s List.mem_cons_self start ready
    obtain ⟨later, final⟩ := ih (fun t member => steps t (List.mem_cons_of_mem s member)) after
    exact ⟨(InPlace.runOn_bind_ok done).trans later, final⟩

theorem attempts_steps {parts : List (List Nat)}
    (steps : ∀ s ∈ parts.flatten, ∀ m, valid m →
      (step s).runOn m = (.ok (), next s m) ∧ valid (next s m))
    {start : σ} (ready : valid start) :
    (parts.mapM fun part => InPlace.attempt (part.forM step)).runOn start
      = (.ok (parts.map fun _ => none), parts.flatten.foldl (fun m s => next s m) start) := by
  induction parts generalizing start with
  | nil => rfl
  | cons part rest ih =>
    rw [List.flatten_cons] at steps
    obtain ⟨done, after⟩ := forM_steps part
      (fun s member => steps s (List.mem_append_left _ member)) ready
    have later := ih (fun s member => steps s (List.mem_append_right _ member)) after
    rw [List.mapM_cons, InPlace.runOn_bind_ok (InPlace.runOn_attempt done),
      InPlace.runOn_bind_ok later, InPlace.runOn_pure, List.flatten_cons, List.foldl_append]
    rfl

theorem runChunks_steps {parts : List (List Nat)}
    (steps : ∀ s ∈ parts.flatten, ∀ m, valid m →
      (step s).runOn m = (.ok (), next s m) ∧ valid (next s m))
    {start : σ} (ready : valid start) :
    (runChunks step parts).runOn start
      = (.ok (), parts.flatten.foldl (fun m s => next s m) start) := by
  have quiet : (parts.map fun _ => (none : Option (Failure α))).findSome? id = none := by
    rw [List.findSome?_eq_none_iff]
    intro entry member
    obtain ⟨_, _, same⟩ := List.mem_map.mp member
    rw [← same]
    rfl
  rw [runChunks, InPlace.runOn_bind_ok (attempts_steps steps ready), quiet]
  rfl

theorem forM_each {states : List Nat} {x y : σ} (done : (states.forM step).runOn x = (.ok (), y)) :
    ∀ s ∈ states, ∃ x y, (step s).runOn x = (.ok (), y) := by
  induction states generalizing x with
  | nil =>
    intro s member
    cases member
  | cons first rest ih =>
    obtain ⟨_, z, here, later⟩ := InPlace.runOn_bind_eq_ok done
    exact List.forall_mem_cons.mpr ⟨⟨x, z, here⟩, ih later⟩

theorem attempts_each {parts : List (List Nat)} {x y : σ} {failures : List (Option (Failure α))}
    (done : (parts.mapM fun part => InPlace.attempt (part.forM step)).runOn x = (.ok failures, y))
    (clean : failures.findSome? id = none) :
    ∀ s ∈ parts.flatten, ∃ x y, (step s).runOn x = (.ok (), y) := by
  induction parts generalizing x failures with
  | nil =>
    intro s member
    cases member
  | cons part rest ih =>
    rw [List.mapM_cons] at done
    obtain ⟨failure, z, here, done⟩ := InPlace.runOn_bind_eq_ok done
    obtain ⟨later, _, there, done⟩ := InPlace.runOn_bind_eq_ok done
    cases done
    rw [List.findSome?_cons] at clean
    cases failure with
    | some e => cases clean
    | none =>
      rw [List.flatten_cons]
      intro s member
      rcases List.mem_append.mp member with inPart | inRest
      · exact forM_each (InPlace.runOn_of_attempt here) s inPart
      · exact ih there clean s inRest

theorem runChunks_each {parts : List (List Nat)} {x y : σ}
    (done : (runChunks step parts).runOn x = (.ok (), y)) :
    ∀ s ∈ parts.flatten, ∃ x y, (step s).runOn x = (.ok (), y) := by
  obtain ⟨failures, _, tried, done⟩ := InPlace.runOn_bind_eq_ok done
  split at done
  · cases done
  · rename_i clean
    exact attempts_each tried clean

end Runs

theorem getElem?_writes {β : Type} (f : Nat → β) (states : List Nat) (xs : Array β) (i : Nat) :
    (states.foldl (fun ys s => ys.setIfInBounds s (f s)) xs)[i]?
      = if i ∈ states ∧ i < xs.size then some (f i) else xs[i]? := by
  induction states generalizing xs with
  | nil => simp
  | cons s rest ih =>
    rw [List.foldl_cons, ih, Array.size_setIfInBounds, Array.getElem?_setIfInBounds]
    simp only [List.mem_cons]
    by_cases later : i ∈ rest ∧ i < xs.size
    · rw [if_pos later, if_pos ⟨Or.inr later.1, later.2⟩]
    · rw [if_neg later]
      by_cases here : s = i
      · subst here
        by_cases inside : s < xs.size
        · simp [inside]
        · simp [inside]
      · have elsewhere : ¬((i = s ∨ i ∈ rest) ∧ i < xs.size) := fun ⟨place, inside⟩ =>
          place.elim (fun same => here same.symm) fun member => later ⟨member, inside⟩
        rw [if_neg here, if_neg elsewhere]

theorem writes_all {β : Type} {n : Nat} (f : Nat → β) {xs : Array β} (size : xs.size = n) :
    (List.range n).foldl (fun ys s => ys.setIfInBounds s (f s)) xs = Array.ofFn fun s : Fin n => f s := by
  refine Array.ext_getElem? fun i => ?_
  rw [getElem?_writes, Array.getElem?_ofFn, size]
  simp only [List.mem_range]
  by_cases inside : i < n
  · rw [if_pos ⟨inside, inside⟩, dif_pos inside]
  · rw [if_neg fun both => inside both.1, dif_neg inside, Array.getElem?_eq_none (by omega)]

theorem ofFn_getElem? {β : Type} {n : Nat} (f : Nat → β) {s : Nat} (inside : s < n) :
    (Array.ofFn fun s : Fin n => f s)[s]? = some (f s) := by
  rw [Array.getElem?_ofFn, dif_pos inside]

theorem ofFn_getD {β : Type} {n : Nat} {xs : Array β} (size : xs.size = n) (default : β) :
    (Array.ofFn fun s : Fin n => xs.getD s default) = xs := by
  subst size
  refine Array.ext (by simp) fun i _ inside => ?_
  simp [Array.getD]

section Passes

variable {α σ : Type} {mem : SweepMemory σ α} {n : Nat} {v : Array α} {valid : σ → Prop}
  {setValue : Nat → α → σ → σ} {setAction : Nat → Int → σ → σ}

-- A memory in which what is read stays v while the cells of n states are written.
structure SweepMemory.Keeps (mem : SweepMemory σ α) (n : Nat) (v : Array α) (valid : σ → Prop)
    (setValue : Nat → α → σ → σ) (setAction : Nat → Int → σ → σ) : Prop where
  reads : ∀ x, valid x → mem.value x = Reader.ofArray v
  value : ∀ s < n, ∀ y x, valid x → mem.putValue s y x = .ok (setValue s y x) ∧ valid (setValue s y x)
  action : ∀ s < n, ∀ a x, valid x → mem.putAction s a x = .ok (setAction s a x) ∧ valid (setAction s a x)

namespace SweepMemory.Keeps

theorem write_runOn (keeps : mem.Keeps n v valid setValue setAction) {s : Nat} (inside : s < n) (c : Choice α) {x : σ}
    (ready : valid x) : (mem.write s c).runOn x = (.ok (), setAction s c.2 (setValue s c.1 x)) ∧
      valid (setAction s c.2 (setValue s c.1 x)) := by
  obtain ⟨stored, after⟩ := keeps.value s inside c.1 x ready
  obtain ⟨noted, final⟩ := keeps.action s inside c.2 _ after
  refine ⟨?_, final⟩
  rw [SweepMemory.write, InPlace.runOn_bind_ok (InPlace.runOn_update stored), InPlace.runOn_update noted]

theorem choose_runOn (keeps : mem.Keeps n v valid setValue setAction) {s : Nat} (inside : s < n)
    {x : σ} (ready : valid x) {choose : Reader α → Outcome α (Choice α)} {choice : Choice α}
    (known : choose (Reader.ofArray v) = .ok choice) :
    (do
      let now ← get
      let choice ← InPlace.lift (choose (mem.value now))
      mem.write s choice : InPlace σ α Unit).runOn x
      = (.ok (), setAction s choice.2 (setValue s choice.1 x)) ∧
    valid (setAction s choice.2 (setValue s choice.1 x)) := by
  have chosen : (InPlace.lift (choose (mem.value x)) : InPlace σ α (Choice α)).runOn x
      = (.ok choice, x) := by
    rw [InPlace.runOn_lift, keeps.reads x ready, known]
  rw [InPlace.runOn_bind_ok (InPlace.runOn_get x), InPlace.runOn_bind_ok chosen]
  exact keeps.write_runOn inside choice ready

variable [Scalar α] {m : Model α} {goal : Goal α} {schedule : Schedule} {parts : List (List Nat)}

theorem bellmanSweep_runOn (keeps : mem.Keeps m.stateCount v valid setValue setAction) {discount : α}
    (known : goal.discount = .ok discount) (cut : (schedule.chunks m.stateCount : Outcome α _) = .ok parts)
    (columnar : ∀ f, m = .flat f → ∀ s < m.stateCount,
      f.greedyChoice discount s (Reader.ofArray v) = m.greedyChoice goal s (Reader.ofArray v))
    (value : Nat → α) (action : Nat → Int)
    (choices : ∀ s < m.stateCount,
      m.greedyChoice goal s (Reader.ofArray v) = .ok (value s, action s))
    {start : σ} (ready : valid start) : (mem.bellmanSweep m goal schedule).runOn start
      = (.ok (), (List.range m.stateCount).foldl
          (fun x s => setAction s (action s) (setValue s (value s) x)) start) := by
  cases m with
  | table t =>
    have steps : ∀ s ∈ parts.flatten, ∀ x, valid x →
        (mem.bellmanStep t goal s).runOn x = (.ok (), setAction s (action s) (setValue s (value s) x)) ∧
          valid (setAction s (action s) (setValue s (value s) x)) := by
      intro s member x stable
      rw [Schedule.chunks_flatten cut] at member
      have inside : s < t.stateCount := List.mem_range.mp member
      exact keeps.choose_runOn inside stable (choices s inside)
    have all := runChunks_steps steps ready
    rw [Schedule.chunks_flatten cut] at all
    exact (InPlace.runOn_bind_ok (congrArg (·, _) cut)).trans all
  | flat f =>
    have steps : ∀ s ∈ List.range f.stateCount, ∀ x, valid x →
        (mem.flatStep f discount s).runOn x = (.ok (), setAction s (action s) (setValue s (value s) x)) ∧
          valid (setAction s (action s) (setValue s (value s) x)) := by
      intro s member x stable
      have inside : s < f.stateCount := List.mem_range.mp member
      exact keeps.choose_runOn inside stable ((columnar f rfl s inside).trans (choices s inside))
    have all := forM_steps (List.range f.stateCount) steps ready
    exact (InPlace.runOn_bind_ok (congrArg (·, _) known)).trans all.1

theorem policySweep_runOn (keeps : mem.Keeps m.stateCount v valid setValue setAction) {t : Int}
    {policy : Policy α} (cut : (schedule.chunks m.stateCount : Outcome α _) = .ok parts) (value : Nat → α)
    (values : ∀ s < m.stateCount, m.policyValue goal t s policy (Reader.ofArray v) = .ok (value s))
    {start : σ} (ready : valid start) : (mem.policySweep m goal t policy schedule).runOn start
      = (.ok (), (List.range m.stateCount).foldl (fun x s => setValue s (value s) x) start) := by
  have steps : ∀ s ∈ parts.flatten, ∀ x, valid x →
      (mem.policyStep m goal t policy s).runOn x = (.ok (), setValue s (value s) x) ∧
        valid (setValue s (value s) x) := by
    intro s member x stable
    rw [Schedule.chunks_flatten cut] at member
    have inside : s < m.stateCount := List.mem_range.mp member
    obtain ⟨stored, after⟩ := keeps.value s inside (value s) x stable
    have known : (InPlace.lift (m.policyValue goal t s policy (mem.value x)) : InPlace σ α α).runOn x
        = (.ok (value s), x) := by
      rw [InPlace.runOn_lift, keeps.reads x stable, values s inside]
    refine ⟨?_, after⟩
    rw [SweepMemory.policyStep, InPlace.runOn_bind_ok (InPlace.runOn_get x), InPlace.runOn_bind_ok known,
      InPlace.runOn_update stored]
  have all := runChunks_steps steps ready
  rw [Schedule.chunks_flatten cut] at all
  exact (InPlace.runOn_bind_ok (congrArg (·, _) cut)).trans all

end SweepMemory.Keeps

end Passes

namespace SweepBuffers

variable {α : Type} {n : Nat} {v : Array α}

def HasSize (n : Nat) (b : SweepBuffers α) : Prop := b.values.size = n ∧ b.actions.size = n

theorem zeros_size [Scalar α] (n : Nat) : (zeros n : SweepBuffers α).HasSize n :=
  ⟨Array.size_replicate, Array.size_replicate⟩

theorem memory_keeps (n : Nat) (v : Array α) : (memory v).Keeps n v (HasSize n)
    (fun s y b => { b with values := b.values.setIfInBounds s y })
    (fun s a b => { b with actions := b.actions.setIfInBounds s a }) := by
  refine ⟨fun _ _ => rfl, fun s inside y b size => ⟨?_, ?_, size.2⟩, fun s inside a b size => ⟨?_, size.1, ?_⟩⟩
  · exact if_pos (by rw [size.1]; exact inside)
  · exact Array.size_setIfInBounds.trans size.1
  · exact if_pos (by rw [size.2]; exact inside)
  · exact Array.size_setIfInBounds.trans size.2

theorem writes_apart (value : Nat → α) (action : Nat → Int) (states : List Nat) (b : SweepBuffers α) :
    states.foldl (fun c s => { values := c.values.setIfInBounds s (value s),
                               actions := c.actions.setIfInBounds s (action s) }) b
      = ⟨states.foldl (fun ys s => ys.setIfInBounds s (value s)) b.values,
        states.foldl (fun ys s => ys.setIfInBounds s (action s)) b.actions⟩ := by
  induction states generalizing b with
  | nil => rfl
  | cons s rest ih => exact ih _

theorem writes_values (value : Nat → α) (states : List Nat) (b : SweepBuffers α) :
    states.foldl (fun b s => { b with values := b.values.setIfInBounds s (value s) }) b
      = { b with values := states.foldl (fun ys s => ys.setIfInBounds s (value s)) b.values } := by
  induction states generalizing b with
  | nil => rfl
  | cons s rest ih => exact ih _

end SweepBuffers

section Vectors

variable {α : Type} [Scalar α] {v : Array α} {schedule : Schedule} {parts : List (List Nat)}

theorem SweepBuffers.bellmanSweep_runOn {m : Model α} {goal : Goal α} {discount : α}
    (known : goal.discount = .ok discount) (cut : (schedule.chunks m.stateCount : Outcome α _) = .ok parts)
    (columnar : ∀ f, m = .flat f → ∀ s < m.stateCount,
      f.greedyChoice discount s (Reader.ofArray v) = m.greedyChoice goal s (Reader.ofArray v))
    (value : Nat → α) (action : Nat → Int)
    (choices : ∀ s < m.stateCount,
      m.greedyChoice goal s (Reader.ofArray v) = .ok (value s, action s))
    {start : SweepBuffers α} (room : start.HasSize m.stateCount) :
    ((memory v).bellmanSweep m goal schedule).runOn start
      = (.ok (), ⟨Array.ofFn fun s : Fin m.stateCount => value s,
        Array.ofFn fun s : Fin m.stateCount => action s⟩) := by
  have ran := (memory_keeps m.stateCount v).bellmanSweep_runOn known cut columnar value action choices room
  have apart := writes_apart value action (List.range m.stateCount) start
  rw [writes_all value room.1, writes_all action room.2] at apart
  rw [ran, ← apart]

theorem Model.bellman_ok {m : Model α} {goal : Goal α} {discount : α}
    (known : goal.discount = .ok discount) (cut : (schedule.chunks m.stateCount : Outcome α _) = .ok parts)
    (columnar : ∀ f, m = .flat f → ∀ s < m.stateCount,
      f.greedyChoice discount s (Reader.ofArray v) = m.greedyChoice goal s (Reader.ofArray v))
    (value : Nat → α) (action : Nat → Int)
    (choices : ∀ s < m.stateCount,
      m.greedyChoice goal s (Reader.ofArray v) = .ok (value s, action s)) :
    m.bellman goal v schedule = .ok ⟨Array.ofFn fun s : Fin m.stateCount => value s,
      Array.ofFn fun s : Fin m.stateCount => action s⟩ := by
  rw [Model.bellman, InPlace.result, SweepBuffers.bellmanSweep_runOn known cut columnar value action choices
    (SweepBuffers.zeros_size m.stateCount)]

theorem SweepBuffers.policySweep_runOn {m : Model α} {goal : Goal α} {t : Int} {policy : Policy α}
    (cut : (schedule.chunks m.stateCount : Outcome α _) = .ok parts) (value : Nat → α)
    (values : ∀ s < m.stateCount, m.policyValue goal t s policy (Reader.ofArray v) = .ok (value s))
    {start : SweepBuffers α} (room : start.HasSize m.stateCount) :
    ((memory v).policySweep m goal t policy schedule).runOn start
      = (.ok (), { start with values := Array.ofFn fun s : Fin m.stateCount => value s }) := by
  rw [(memory_keeps m.stateCount v).policySweep_runOn cut value values room, writes_values,
    writes_all value room.1]

theorem Model.followed_ok {m : Model α} {goal : Goal α} {t : Int} {policy : Policy α}
    (cut : (schedule.chunks m.stateCount : Outcome α _) = .ok parts) (value : Nat → α)
    (values : ∀ s < m.stateCount, m.policyValue goal t s policy (Reader.ofArray v) = .ok (value s)) :
    m.followed goal t v policy schedule = .ok (Array.ofFn fun s : Fin m.stateCount => value s) := by
  rw [Model.followed, InPlace.result, SweepBuffers.policySweep_runOn cut value values
    (SweepBuffers.zeros_size m.stateCount)]
  rfl

end Vectors

end MarkovDecision
