import MarkovDecision.Proofs.GuardedRuns

namespace MarkovDecision

variable {α : Type} [Scalar α] {m : Model α} {goal : Goal α} {v w : Array α} {schedule : Schedule}

open InPlace

section Lookups

variable (size : w.size = v.size)

include size

omit [Scalar α] in
theorem lookup_again {i : Int} {x : α} (found : Reader.ofArray v i = .ok x) : ∃ y, Reader.ofArray w i = .ok y := by
  have found : entry v i = .ok x := found
  change ∃ y, entry w i = .ok y
  unfold entry at found ⊢
  rw [size]
  cases place : indexFrom v.size i with
  | none =>
    rw [place] at found
    cases found
  | some k =>
    rw [place, Option.bind_some] at found
    rw [Option.bind_some]
    have inside : k < w.size := by
      rw [size]
      by_contra outside
      rw [Array.getElem?_eq_none (not_lt.mp outside)] at found
      cases found
    rw [Array.getElem?_eq_getElem inside]
    exact ⟨_, rfl⟩

theorem backup_again {discount x : α} {ts : List (Transition α)}
    (done : backup discount (Reader.ofArray v) ts = .ok x) : ∃ y, backup discount (Reader.ofArray w) ts = .ok y := by
  refine Outcome.foldlM_exists (fun total t member => ?_) _
  obtain ⟨_, _, step⟩ := Outcome.foldlM_each done t member
  obtain ⟨i, position, step⟩ := Outcome.bind_ok.mp step
  obtain ⟨value, found, _⟩ := Outcome.bind_ok.mp step
  obtain ⟨y, again⟩ := lookup_again size found
  rw [position, Outcome.ok_bind, again]
  exact ⟨_, rfl⟩

theorem pairValue_again {f : FlatModel α} {discount x : α} {k : Nat}
    (done : f.pairValue discount (Reader.ofArray v) k = .ok x) : ∃ y, f.pairValue discount (Reader.ofArray w) k = .ok y := by
  refine Outcome.foldlM_exists (fun total i member => ?_) _
  obtain ⟨_, _, step⟩ := Outcome.foldlM_each done i member
  obtain ⟨p, probability, step⟩ := Outcome.bind_ok.mp step
  obtain ⟨r, reward, step⟩ := Outcome.bind_ok.mp step
  obtain ⟨next, target, step⟩ := Outcome.bind_ok.mp step
  obtain ⟨value, found, _⟩ := Outcome.bind_ok.mp step
  obtain ⟨y, again⟩ := lookup_again size found
  rw [probability, Outcome.ok_bind, reward, Outcome.ok_bind, target, Outcome.ok_bind, again]
  exact ⟨_, rfl⟩

end Lookups

def Model.passChoice (m : Model α) (goal : Goal α) (s : Nat) (r : Reader α) : Outcome α (Choice α) :=
  match m with
  | .table t => (Model.table t).greedyChoice goal (s : Nat) r
  | .flat f => do f.greedyChoice (← goal.discount) s r

theorem Model.passChoice_again (size : w.size = v.size) {s : Nat} {c : Choice α}
    (chosen : m.passChoice goal s (Reader.ofArray v) = .ok c) : ∃ d, m.passChoice goal s (Reader.ofArray w) = .ok d := by
  cases m with
  | table t =>
    obtain ⟨count, counted, chosen⟩ := Outcome.bind_ok.mp chosen
    rw [passChoice, greedyChoice, counted, Outcome.ok_bind]
    refine Outcome.foldlM_exists (fun best a member => ?_) _
    obtain ⟨_, _, step⟩ := Outcome.foldlM_each chosen a member
    obtain ⟨x, value, _⟩ := Outcome.bind_ok.mp step
    obtain ⟨discount, known, value⟩ := Outcome.bind_ok.mp value
    obtain ⟨ts, listed, value⟩ := Outcome.bind_ok.mp value
    obtain ⟨y, again⟩ := backup_again size value
    rw [actionValue, known, Outcome.ok_bind, listed, Outcome.ok_bind, again]
    exact ⟨_, rfl⟩
  | flat f =>
    obtain ⟨discount, known, chosen⟩ := Outcome.bind_ok.mp chosen
    rw [passChoice, known, Outcome.ok_bind]
    refine Outcome.foldlM_exists (fun best a member => ?_) _
    obtain ⟨_, _, step⟩ := Outcome.foldlM_each chosen a member
    obtain ⟨x, value, _⟩ := Outcome.bind_ok.mp step
    obtain ⟨y, again⟩ := pairValue_again size value
    rw [again]
    exact ⟨_, rfl⟩

section Passes

variable {σ : Type} {mem : SweepMemory σ α} {ordered : σ → Prop} {setValue : Nat → α → σ → σ}
  {setAction : Nat → Int → σ → σ} {allowed : Failure α → Prop}

theorem SweepMemory.Keeps.bellmanSweep_guarded (keeps : mem.Keeps m.stateCount v ordered setValue setAction)
    (cutting : ∀ e, (schedule.chunks m.stateCount : Outcome α _) = .error e → allowed e)
    (discounting : ∀ f, m = .flat f → ∀ e, goal.discount = .error e → allowed e)
    (choosing : ∀ s < m.stateCount, ∀ e, m.passChoice goal s (Reader.ofArray v) = .error e → allowed e) :
    (mem.bellmanSweep m goal schedule).Guarded ordered allowed Any := by
  have writes (s : Nat) (inside : s < m.stateCount) (c : Choice α) : (mem.write s c).Guarded ordered allowed Any :=
    (guarded_update fun x ready => ⟨_, keeps.value s inside c.1 x ready⟩).bind fun _ _ =>
      guarded_update fun x ready => ⟨_, keeps.action s inside c.2 x ready⟩
  cases m with
  | table t =>
    refine (guarded_lift cutting).bind fun parts cut => guarded_runChunks fun s member => ?_
    rw [Schedule.chunks_flatten cut] at member
    have inside := List.mem_range.mp member
    refine guarded_get fun x ready => ?_
    rw [keeps.reads x ready]
    exact (guarded_lift (choosing s inside)).bind fun c _ => writes s inside c
  | flat f =>
    refine (guarded_lift (discounting f rfl)).bind fun discount known => guarded_forM fun s member => ?_
    have inside := List.mem_range.mp member
    refine guarded_get fun x ready => ?_
    rw [keeps.reads x ready]
    refine (guarded_lift fun e failed => choosing s inside e ?_).bind fun c _ => writes s inside c
    rw [Model.passChoice, known, Outcome.ok_bind, failed]

end Passes

theorem Model.bellman_each {b : SweepBuffers α} (done : m.bellman goal v .serial = .ok b) :
    (∀ f, m = .flat f → ∃ discount, goal.discount = .ok discount) ∧
      ∀ s < m.stateCount, ∃ c, m.passChoice goal s (Reader.ofArray v) = .ok c := by
  unfold bellman InPlace.result at done
  split at done
  · rename_i u y ran
    clear done
    cases m with
    | table t =>
      refine ⟨fun f none => (by cases none), fun s inside => ?_⟩
      obtain ⟨_, _, cut, ran⟩ := runOn_bind_eq_ok ran
      obtain ⟨_, _, step⟩ := runChunks_each ran s (by
        rw [← Except.ok.inj (lift_eq_ok cut).1, List.flatten_singleton]
        exact List.mem_range.mpr inside)
      obtain ⟨_, _, read, step⟩ := runOn_bind_eq_ok step
      cases read
      obtain ⟨c, _, chosen, _⟩ := runOn_bind_eq_ok step
      exact ⟨c, (lift_eq_ok chosen).1⟩
    | flat f =>
      obtain ⟨discount, _, known, ran⟩ := runOn_bind_eq_ok ran
      have known := (lift_eq_ok known).1
      refine ⟨fun _ _ => ⟨discount, known⟩, fun s inside => ?_⟩
      obtain ⟨_, _, step⟩ := forM_each ran s (List.mem_range.mpr inside)
      obtain ⟨_, _, read, step⟩ := runOn_bind_eq_ok step
      cases read
      obtain ⟨c, _, chosen, _⟩ := runOn_bind_eq_ok step
      refine ⟨c, ?_⟩
      rw [passChoice, known, Outcome.ok_bind]
      exact (lift_eq_ok chosen).1
  · cases done

theorem Model.bellman_size {b : SweepBuffers α} (done : m.bellman goal v .serial = .ok b) : b.HasSize m.stateCount := by
  have guarded : ((SweepBuffers.memory v).bellmanSweep m goal .serial).Guarded (SweepBuffers.HasSize m.stateCount) Any Any :=
    (SweepBuffers.memory_keeps m.stateCount v).bellmanSweep_guarded (fun _ _ => trivial) (fun _ _ _ _ => trivial)
      fun _ _ _ _ => trivial
  exact (guarded.result (SweepBuffers.zeros_size m.stateCount)).1 b done

-- A choice looks values up without looking at them: it is found in any two vectors of one length or
-- in neither.
theorem Model.bellman_again (size : w.size = v.size) {b : SweepBuffers α} (done : m.bellman goal v .serial = .ok b) :
    ∃ b', m.bellman goal w .serial = .ok b' := by
  obtain ⟨discounted, chosen⟩ := bellman_each done
  have guarded : ((SweepBuffers.memory w).bellmanSweep m goal .serial).Guarded (SweepBuffers.HasSize m.stateCount)
      (fun _ => False) Any := by
    refine (SweepBuffers.memory_keeps m.stateCount w).bellmanSweep_guarded (fun e failed => ?_)
      (fun f flat e failed => ?_) fun s inside e failed => ?_
    · cases failed
    · obtain ⟨_, known⟩ := discounted f flat
      cases known.symm.trans failed
    · obtain ⟨c, found⟩ := chosen s inside
      obtain ⟨d, again⟩ := passChoice_again size found
      cases again.symm.trans failed
  cases passed : m.bellman goal w .serial with
  | ok b' => exact ⟨b', rfl⟩
  | error e => exact absurd passed ((guarded.result (SweepBuffers.zeros_size m.stateCount)).2 e)

end MarkovDecision
