import MarkovDecision.Proofs.MirroredStages

namespace MarkovDecision

-- How a computation may end: with an answer as expected or with a failure of a kind that is allowed.
inductive Ends {α σ β : Type} (ordered : σ → Prop) (allowed : Failure α → Prop) (expected : β → Prop) :
    Outcome α β × σ → Prop
  | returned {b : β} {s : σ} (answer : expected b) (kept : ordered s) : Ends ordered allowed expected (.ok b, s)
  | failed {e : Failure α} {s : σ} (fine : allowed e) (kept : ordered s) : Ends ordered allowed expected (.error e, s)

def InPlace.Guarded {α σ β : Type} (ordered : σ → Prop) (allowed : Failure α → Prop) (expected : β → Prop)
    (c : InPlace σ α β) : Prop := ∀ s, ordered s → Ends ordered allowed expected (c.runOn s)

def Any {β : Type} (_ : β) : Prop := True

namespace InPlace

section Steps

variable {α σ β γ : Type} {ordered : σ → Prop} {allowed : Failure α → Prop} {expected : γ → Prop} {found : β → Prop}

theorem Guarded.failure {c : InPlace σ α β} (guarded : c.Guarded ordered allowed found) {s s' : σ} {e : Failure α}
    (kept : ordered s) (ran : c.runOn s = (.error e, s')) : allowed e := by
  have ends := guarded s kept
  rw [ran] at ends
  cases ends with
  | failed fine => exact fine

theorem guarded_pure {b : β} (answer : found b) : (pure b : InPlace σ α β).Guarded ordered allowed found :=
  fun _ kept => .returned answer kept

theorem guarded_throw {e : Failure α} (fine : allowed e) : (throw e : InPlace σ α β).Guarded ordered allowed found :=
  fun _ kept => .failed fine kept

theorem guarded_lift {x : Outcome α β} (fails : ∀ e, x = .error e → allowed e) :
    (lift x : InPlace σ α β).Guarded ordered allowed (x = .ok ·) := by
  intro s kept
  rw [runOn_lift]
  cases x with
  | ok b => exact .returned rfl kept
  | error e => exact .failed (fails e rfl) kept

theorem guarded_update {f : σ → Outcome α σ} (steps : ∀ s, ordered s → ∃ s', f s = .ok s' ∧ ordered s') :
    (update f).Guarded ordered allowed Any := by
  intro s kept
  obtain ⟨s', done, after⟩ := steps s kept
  rw [runOn_update done]
  exact .returned trivial after

theorem Guarded.bind {c : InPlace σ α β} {f : β → InPlace σ α γ} (first : c.Guarded ordered allowed found)
    (rest : ∀ b, found b → (f b).Guarded ordered allowed expected) : (c >>= f).Guarded ordered allowed expected := by
  intro s kept
  have here := first s kept
  rw [runOn_bind]
  generalize c.runOn s = ran at here ⊢
  cases here with
  | returned answer kept => exact rest _ answer _ kept
  | failed fine kept => exact .failed fine kept

theorem guarded_get {f : σ → InPlace σ α γ} (rest : ∀ s, ordered s → (f s).Guarded ordered allowed expected) :
    (get >>= f).Guarded ordered allowed expected := by
  intro s kept
  rw [runOn_bind_ok (runOn_get s)]
  exact rest s kept s kept

theorem guarded_forM {f : β → InPlace σ α Unit} {xs : List β}
    (steps : ∀ x ∈ xs, (f x).Guarded ordered allowed Any) : (xs.forM f).Guarded ordered allowed Any := by
  induction xs with
  | nil => exact guarded_pure trivial
  | cons x rest ih =>
    obtain ⟨here, later⟩ := List.forall_mem_cons.mp steps
    exact here.bind fun _ _ => ih later

theorem guarded_mapM {f : β → InPlace σ α γ} {xs : List β}
    (steps : ∀ x ∈ xs, (f x).Guarded ordered allowed expected) :
    (xs.mapM f).Guarded ordered allowed fun ys => ∀ y ∈ ys, expected y := by
  induction xs with
  | nil => exact guarded_pure fun y none => absurd none List.not_mem_nil
  | cons x rest ih =>
    obtain ⟨here, later⟩ := List.forall_mem_cons.mp steps
    rw [List.mapM_cons]
    exact here.bind fun y known => (ih later).bind fun ys each =>
      guarded_pure (List.forall_mem_cons.mpr ⟨known, each⟩)

theorem Guarded.attempt {c : InPlace σ α Unit} (guarded : c.Guarded ordered allowed Any) :
    (InPlace.attempt c).Guarded ordered allowed fun kept => ∀ e, kept = some e → allowed e := by
  intro s kept
  have ends := guarded s kept
  rw [attempt_runOn]
  generalize c.runOn s = ran at ends ⊢
  cases ends with
  | returned _ kept => exact .returned (fun e none => by cases none) kept
  | failed fine kept =>
    refine .returned (fun e same => ?_) kept
    cases same
    exact fine

theorem guarded_runChunks {step : Nat → InPlace σ α Unit} {parts : List (List Nat)}
    (steps : ∀ s ∈ parts.flatten, (step s).Guarded ordered allowed Any) :
    (runChunks step parts).Guarded ordered allowed Any := by
  have chunks : ∀ part ∈ parts, (InPlace.attempt (part.forM step)).Guarded ordered allowed
      fun kept => ∀ e, kept = some e → allowed e := fun part member =>
    (guarded_forM fun s inside => steps s (List.mem_flatten.mpr ⟨part, member, inside⟩)).attempt
  refine (guarded_mapM chunks).bind fun failures each => ?_
  cases first : failures.findSome? id with
  | none => exact guarded_pure trivial
  | some e =>
    obtain ⟨kept, member, same⟩ := List.exists_of_findSome?_eq_some first
    exact guarded_throw (each kept member e same)

theorem Guarded.result {c : InPlace σ α Unit} (guarded : c.Guarded ordered allowed Any) {s : σ} (kept : ordered s) :
    (∀ s', c.result s = .ok s' → ordered s') ∧ ∀ e, c.result s = .error e → allowed e := by
  have ends := guarded s kept
  rw [InPlace.result]
  generalize c.runOn s = ran at ends ⊢
  cases ends with
  | returned _ kept => exact ⟨fun s' same => Except.ok.inj same ▸ kept, fun e none => by cases none⟩
  | failed fine _ => exact ⟨fun s' none => (by cases none), fun e same => Except.error.inj same ▸ fine⟩

end Steps

end InPlace

open InPlace

section Workspaces

variable {α σ : Type} {ordered : σ → Prop} {allowed : Failure α → Prop}

theorem Journaled.guarded_note (e : Event α) : (Journaled.note e).Guarded Any allowed Any :=
  guarded_update fun j _ => ⟨j.push e, rfl, trivial⟩

theorem Journaled.guarded_begin (input : allowed .invalidInput) (settings : Settings α) (algorithm column : String)
    (o : Objective α) (states : Nat) :
    (Journaled.begin settings algorithm column o states).Guarded Any allowed Any := by
  have refused : (throw .invalidInput : Journaled α PUnit).Guarded Any allowed Any := guarded_throw input
  unfold Journaled.begin
  split
  · exact (Journaled.guarded_note _).bind fun _ _ => refused.bind fun _ _ => Journaled.guarded_note _
  · exact Journaled.guarded_note _

theorem Workspace.guarded_onMemory {c : InPlace σ α Unit} (guarded : c.Guarded ordered allowed Any) :
    (onMemory c).Guarded (ordered ·.memory) allowed Any := by
  intro w kept
  have ends := guarded w.memory kept
  change Ends _ allowed Any ((c.runOn w.memory).1, { w with memory := (c.runOn w.memory).2 })
  generalize c.runOn w.memory = ran at ends ⊢
  cases ends with
  | returned _ kept => exact .returned trivial kept
  | failed fine kept => exact .failed fine kept

theorem Workspace.guarded_onJournal {c : Journaled α Unit} (guarded : c.Guarded Any allowed Any) :
    (onJournal c : InPlace (Workspace σ α) α Unit).Guarded (ordered ·.memory) allowed Any := by
  intro w kept
  have ends := guarded w.journal trivial
  change Ends _ allowed Any ((c.runOn w.journal).1, { w with journal := (c.runOn w.journal).2 })
  generalize c.runOn w.journal = ran at ends ⊢
  cases ends with
  | returned _ _ => exact .returned trivial kept
  | failed fine _ => exact .failed fine kept

end Workspaces

theorem Schedule.chunks_error {α : Type} {schedule : Schedule} {n : Nat} {e : Failure α}
    (refused : (schedule.chunks n : Outcome α (List (List Nat))) = .error e) : e = .invalidInput := by
  cases schedule with
  | serial => cases refused
  | chunked count capacity =>
    simp only [chunks] at refused
    split at refused
    · cases refused
    · exact (Except.error.inj refused).symm

section Sweeps

variable {α σ : Type} {mem : SweepMemory σ α} {n : Nat} {ordered : σ → Prop}

structure SweepMemory.Serves (mem : SweepMemory σ α) (n : Nat) (ordered : σ → Prop) : Prop where
  reads : ∀ x, ordered x → ∃ v : Array α, mem.value x = Reader.ofArray v ∧ n ≤ v.size
  writes : ∀ s < n, ∀ y x, ordered x → ∃ x', mem.putValue s y x = .ok x' ∧ ordered x'

theorem SweepMemory.Keeps.serves {v : Array α} {setValue : Nat → α → σ → σ} {setAction : Nat → Int → σ → σ}
    (keeps : mem.Keeps n v ordered setValue setAction) (room : n ≤ v.size) : mem.Serves n ordered where
  reads x kept := ⟨v, keeps.reads x kept, room⟩
  writes s inside y x kept := ⟨_, keeps.value s inside y x kept⟩

theorem Stages.memory_serves {horizon t : Nat} (below : t < horizon) :
    (Stages.memory.stage t : SweepMemory (Stages α) α).Serves n (Stages.Sized horizon n) where
  reads b sized := ⟨b.valueRow (t + 1), rfl, (sized.values (t + 1) below).ge⟩
  writes s inside y b sized :=
    ⟨_, ((memory_keeps t n _).value s inside y b (sized.ready below)).1, sized.setValue t s y⟩

variable [Scalar α] {m : Model α} {goal : Goal α} {discount : α} {p : Policy α} {allowed : Failure α → Prop}

theorem SweepMemory.Serves.policySweep (serves : mem.Serves m.stateCount ordered) (input : allowed .invalidInput)
    (listed : m.Listed) (known : goal.discount = .ok discount) (valid : p.validate m none = .ok ())
    (stationary : p.isStationary = true) (t : Int) (schedule : Schedule) :
    (mem.policySweep m goal t p schedule).Guarded ordered allowed Any := by
  have cutting (e : Failure α) (refused : (schedule.chunks m.stateCount : Outcome α _) = .error e) : allowed e := by
    rw [Schedule.chunks_error refused]
    exact input
  refine (guarded_lift cutting).bind fun parts cut => guarded_runChunks fun s member => ?_
  rw [Schedule.chunks_flatten cut] at member
  have inside := List.mem_range.mp member
  refine guarded_get fun x kept => ?_
  obtain ⟨v, reads, room⟩ := serves.reads x kept
  rw [reads]
  refine (guarded_lift fun e failed => ?_).bind fun value _ => guarded_update (serves.writes s inside value)
  rcases m.policyValue_valid listed known room valid stationary inside with ⟨value, found⟩ | ⟨_, unread⟩
  · cases failed.symm.trans found
  · cases failed.symm.trans unread
    exact input

theorem Model.followed_guarded (input : allowed .invalidInput) (listed : m.Listed)
    (known : goal.discount = .ok discount) (valid : p.validate m none = .ok ()) (stationary : p.isStationary = true)
    {v : Array α} (room : m.stateCount ≤ v.size) (t : Int) (schedule : Schedule) :
    (∀ w, m.followed goal t v p schedule = .ok w → m.stateCount ≤ w.size) ∧
      ∀ e, m.followed goal t v p schedule = .error e → allowed e := by
  have serves := (SweepBuffers.memory_keeps m.stateCount v).serves room
  obtain ⟨sized, fails⟩ := (serves.policySweep input listed known valid stationary t schedule).result
    (SweepBuffers.zeros_size m.stateCount)
  constructor
  · intro w done
    obtain ⟨b, swept, same⟩ := Outcome.bind_ok.mp done
    cases same
    exact (sized b swept).1.ge
  · intro e failed
    rcases Outcome.bind_error.mp failed with refused | ⟨b, _, done⟩
    · exact fails e refused
    · cases done

end Sweeps

namespace BackwardInduction

variable {α : Type} [Scalar α] {m : Model α} {o : Objective α} {discount : α} {p : Policy α} {horizon : Nat}
  {allowed : Failure α → Prop} (input : allowed .invalidInput) (listed : m.Listed)
  (known : (Goal.objective o).discount = .ok discount) (valid : p.validate m (some (.int horizon)) = .ok ())

include input listed known valid

-- By induction over the stages that are left; every one of them has a valid rule.
theorem stages_guarded : ∀ t ≤ horizon,
    (stages Stages.memory m o (some p) t).Guarded (Stages.Sized horizon m.stateCount ·.memory) allowed Any := by
  intro t
  induction t with
  | zero => exact fun _ => guarded_pure trivial
  | succ t ih =>
    intro below
    have rule := Policy.atStage_known valid below
    have swept : (sweep Stages.memory m o (some p) t).Guarded (Stages.Sized horizon m.stateCount) allowed Any := by
      refine (guarded_lift fun e failed => ?_).bind fun q found => ?_
      · cases failed.symm.trans rule
      · cases found.symm.trans rule
        exact (Stages.memory_serves below).policySweep input listed known (Policy.atStage_valid valid below)
          (p.atStage_stationary t) t .serial
    refine (Workspace.guarded_onMemory swept).bind fun _ _ => guarded_get fun w _ => ?_
    exact (Workspace.guarded_onJournal (Journaled.guarded_note _)).bind fun _ _ => ih (Nat.le_of_succ_le below)

theorem run_guarded {terminal : TerminalValue α} (shaped : terminal.WellShaped)
    (ending : ∀ e, terminal.vector m.stateCount = .error e → allowed e) (settings : Settings α) :
    (run Stages.memory m o horizon (some p) terminal settings).Guarded (Stages.Sized horizon m.stateCount ·.memory)
      allowed Any := by
  refine (Workspace.guarded_onJournal (Journaled.guarded_begin input _ _ _ _ _)).bind fun _ _ => ?_
  refine (guarded_lift ending).bind fun last found => ?_
  refine (Workspace.guarded_onMemory (guarded_update fun b sized => ?_)).bind fun _ _ => ?_
  · exact ⟨_, rfl, sized.putTerminal (shaped.size found)⟩
  · exact (stages_guarded input listed known valid horizon le_rfl).bind fun _ _ =>
      Workspace.guarded_onJournal (Journaled.guarded_note _)

end BackwardInduction

namespace FixpointIteration

variable {α : Type} [Scalar α] {m : Model α} {o : Objective α} {discount : α} {p : Policy α}
  {allowed : Failure α → Prop}

theorem iterate_guarded {next : Array α → Outcome α (Array α)} {n : Nat}
    (steps : ∀ v, n ≤ v.size → (∀ w, next v = .ok w → n ≤ w.size) ∧ ∀ e, next v = .error e → allowed e)
    (change : List α → α) (threshold : α) (fuel : Nat) : ∀ (done : Nat) (p : Progress α), n ≤ p.value.size →
    (iterate next change threshold fuel done p).Guarded Any allowed Any := by
  induction fuel with
  | zero => exact fun _ _ _ => guarded_pure trivial
  | succ fuel ih =>
    intro done p room
    obtain ⟨sized, fails⟩ := steps p.value room
    refine (guarded_lift fails).bind fun v found => (Journaled.guarded_note _).bind fun _ _ => ?_
    dsimp only
    split
    · exact guarded_pure trivial
    · exact ih (done + 1) _ (sized v found)

theorem run_guarded (input : allowed .invalidInput) (listed : m.Listed)
    (known : (Goal.objective o).discount = .ok discount) (valid : p.validate m none = .ok ())
    (stationary : p.isStationary = true) (settings : Settings α) :
    (run m o discount (some p) settings).Guarded Any allowed Any := by
  have steps (v : Array α) (room : m.stateCount ≤ v.size) :=
    m.followed_guarded input listed known valid stationary room 0 (schedule m (some p) settings)
  have bound (e : Failure α) (failed : threshold settings discount = .error e) : allowed e := by
    unfold threshold at failed
    split at failed
    · rcases Outcome.bind_error.mp failed with unread | ⟨_, _, done⟩
      · rw [Outcome.ofOption_error unread]
        exact input
      · cases done
    · cases failed
  refine (guarded_lift bound).bind fun threshold _ => (Journaled.guarded_begin input _ _ _ _ _).bind fun _ _ => ?_
  refine (iterate_guarded steps _ _ _ 0 (start m) (Array.size_replicate).ge).bind fun q _ => ?_
  refine (guarded_lift fun e none => by cases none).bind fun _ _ => (Journaled.guarded_note _).bind fun _ _ => ?_
  dsimp only
  split
  · exact (Journaled.guarded_note _).bind fun _ _ => guarded_get fun _ _ => guarded_pure trivial
  · exact guarded_get fun _ _ => guarded_pure trivial

end FixpointIteration

section Runs

variable {α : Type} [Scalar α] {m : Model α} {o : Objective α} {discount : α} {given : PolicyData α} {horizon : Nat}
  {allowed : Failure α → Prop} (refusals : ∀ e : Failure α, e.Refuses → allowed e) (listed : m.Listed)
  (known : (Goal.objective o).discount = .ok discount)

include refusals listed known

theorem finiteValueIteration_guarded {terminal : TerminalValue α} (shaped : terminal.WellShaped)
    (ending : ∀ e, terminal.vector m.stateCount = .error e → allowed e) (settings : Settings α) :
    (finiteValueIteration m o horizon (some given) terminal settings).Guarded Any allowed Any := by
  have input : allowed .invalidInput := refusals _ (Or.inr rfl)
  have made (e : Failure α) (failed : Stages.make settings.capacity horizon m.stateCount = .error e) : allowed e := by
    unfold Stages.make at failed
    split at failed <;> cases failed
    exact input
  refine (guarded_lift made).bind fun b zeros => ?_
  refine (guarded_lift fun e refused => ?_).bind fun policy accepted => guarded_get fun j _ => ?_
  · have refused : (given.validate m ((some (horizon : Int)).map .int)).map some = .error e := refused
    exact refusals e (PolicyData.validate_refuses listed.counted (Outcome.map_eq_error.mp refused))
  · obtain ⟨p, validated, rfl⟩ := Outcome.map_eq_ok.mp accepted
    obtain ⟨_, valid⟩ := PolicyData.validate_ok.mp validated
    have sized : b.Sized horizon m.stateCount := by
      unfold Stages.make at zeros
      split at zeros <;> cases zeros
      exact Stages.zeros_sized horizon m.stateCount
    have ends := BackwardInduction.run_guarded input listed known valid shaped ending settings ⟨b, j⟩ sized
    generalize (BackwardInduction.run Stages.memory m o horizon (some p) terminal settings).runOn ⟨b, j⟩ = ran at ends ⊢
    cases ends with
    | returned => exact fun _ _ => .returned trivial trivial
    | failed fine => exact fun _ _ => .failed fine trivial

theorem infiniteValueIteration_guarded (settings : Settings α) :
    (infiniteValueIteration m o discount (some given) settings).Guarded Any allowed Any := by
  refine (guarded_lift fun e refused => ?_).bind fun policy accepted => ?_
  · rw [Option.mapM_some] at refused
    rcases Outcome.bind_error.mp (Outcome.map_eq_error.mp refused) with invalid | ⟨p, _, refused⟩
    · have invalid : given.validate m ((none : Option Int).map .int) = .error e := invalid
      exact refusals e (PolicyData.validate_refuses listed.counted invalid)
    · rcases Outcome.unless_error.mp refused with ⟨_, rfl⟩ | ⟨_, done⟩
      · exact refusals _ (Or.inl rfl)
      · cases done
  · rw [Option.mapM_some] at accepted
    obtain ⟨p, passed, rfl⟩ := Outcome.map_eq_ok.mp accepted
    obtain ⟨q, validated, rest⟩ := Outcome.bind_ok.mp passed
    obtain ⟨stationary, same⟩ := Outcome.unless_ok.mp rest
    cases same
    obtain ⟨_, valid⟩ := PolicyData.validate_ok.mp validated
    have stationary : p.isStationary = true := by simpa using stationary
    exact FixpointIteration.run_guarded (refusals _ (Or.inr rfl)) listed known valid stationary settings

end Runs

theorem valueIteration_guarded {α : Type} [Scalar α] {m : Model α} (listed : m.Listed) (o : Objective α)
    (given : PolicyData α) {terminal : Option (TerminalValue α)} (shaped : ∀ w ∈ terminal, w.WellShaped)
    (settings : Settings α) : (valueIteration m o (some given) terminal settings).Guarded Any
      (fun e => e.Refuses ∨ ∃ w ∈ terminal, w.vector m.stateCount = .error e) Any := by
  cases o with
  | finite γ horizon =>
    have discount : (Goal.objective (.finite γ horizon)).discount = .ok γ := rfl
    cases terminal with
    | none =>
      have shaped : (TerminalValue.zero : TerminalValue α).WellShaped := trivial
      exact finiteValueIteration_guarded (fun e => Or.inl) listed discount shaped (fun e none => by cases none) _
    | some w =>
      exact finiteValueIteration_guarded (fun e => Or.inl) listed discount (shaped w rfl)
        (fun e failed => Or.inr ⟨w, rfl, failed⟩) _
  | infinite γ =>
    have discount : (Goal.objective (.infinite γ)).discount = .ok γ := rfl
    cases terminal with
    | none => exact infiniteValueIteration_guarded (fun e => Or.inl) listed discount settings
    | some w => exact guarded_throw (Or.inl (Or.inl rfl))
  | total => exact guarded_throw (Or.inl (Or.inl rfl))
  | base => exact guarded_throw (Or.inl (Or.inl rfl))

end MarkovDecision
