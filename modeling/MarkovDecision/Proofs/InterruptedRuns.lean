import MarkovDecision.Proofs.FilledStages

namespace MarkovDecision

namespace Model

variable {α : Type} [Scalar α] {m : Model α} {s : Nat}

structure FirstEmpty (m : Model α) (s : Nat) : Prop where
  state : s < m.stateCount
  none : m.actionCount (s : Nat) = .ok 0
  before : ∀ i < s, m.actionCount (i : Nat) ≠ .ok 0

theorem acts_of_choice {goal : Goal α} {r : Reader α} {choice : Choice α}
    (chosen : m.greedyChoice goal (s : Nat) r = .ok choice) : m.actionCount (s : Nat) ≠ .ok 0 := by
  intro none
  rw [greedyChoice, positiveCount, none] at chosen
  cases chosen

end Model

namespace Storage

variable {α : Type} [Scalar α] {horizon n t s : Nat} {v p : View} {last : Array α} {before now : Storage α}
  {optimise : Bool}

-- The states up to one have been given their greedy actions, the rest of the buffer is as it was. What is read has
-- not changed: it lies in a buffer of its own or was copied before.
structure Chosen (model : Table α) (goal : Goal α) (values actions : View) (before : Storage α) (s : Nat)
    (now : Storage α) : Prop where
  whole : now.isWhole actions = true
  room : (now.wholes actions).cells.size = model.stateCount
  source : before.realSource values now = before.read values
  done : ∀ i < s, ∃ c, (Model.table model).greedyChoice goal i (before.read values) = .ok c ∧
    (now.wholes actions).cells[i]? = some c.2
  rest : ∀ i, s ≤ i → (now.wholes actions).cells[i]? = (before.wholes actions).cells[i]?

section Greedy

variable {model : Table α} {goal : Goal α} {values actions : View}

theorem Chosen.next_state (chosen : Chosen model goal values actions before s now)
    (whole : before.isWhole actions = true) (state : s < model.stateCount) (inside : s < actions.size) {choice : Choice α}
    (known : (Model.table model).greedyChoice goal s (before.read values) = .ok choice) {y : α} :
    Chosen model goal values actions before (s + 1) (now.putCell actions s y choice.2) := by
  have shown : ((now.putCell actions s y choice.2).wholes actions).cells
      = (now.wholes actions).cells.setIfInBounds s choice.2 := wholes_putCell chosen.whole inside
  refine ⟨putCell_isWhole.trans chosen.whole, ?_, ?_, fun i below => ?_, fun i ahead => ?_⟩
  · rw [shown]
    exact Array.size_setIfInBounds.trans chosen.room
  · have source := chosen.source
    rw [realSource] at source ⊢
    by_cases copied : before.isWhole values = true
    · rw [if_pos copied]
    · rw [if_neg copied] at source ⊢
      have apart : values.Apart actions := fun same => by
        rw [isWhole, buffer, same] at copied
        exact absurd whole copied
      exact (read_putCell apart inside).trans source
  · rw [shown, Array.getElem?_setIfInBounds]
    by_cases here : s = i
    · subst here
      exact ⟨choice, known, by rw [if_pos rfl, if_pos (chosen.room ▸ state)]⟩
    · rw [if_neg here]
      exact chosen.done i (by omega)
  · rw [shown, Array.getElem?_setIfInBounds, if_neg (by omega)]
    exact chosen.rest i (by omega)

theorem greedy_runOn (shape : actions.shape = [model.stateCount]) (goal : Goal α) (values : View) (m : Storage α) :
    (greedy (.table model) goal values actions).runOn m = ((List.range model.stateCount).forM ((greedyMemory
      (m.realSource values) fun s a now => now.writeWhole actions s a).bellmanStep model goal)).runOn m := by
  have held : (InPlace.lift (Outcome.ofOption actions.length?) : InPlace (Storage α) α Nat).runOn m
      = (.ok model.stateCount, m) := by
    rw [View.length?, shape]
    rfl
  have cut : (InPlace.lift (Schedule.serial.chunks model.stateCount) : InPlace (Storage α) α _).runOn m
      = (.ok [List.range model.stateCount], m) := rfl
  rw [greedy, InPlace.runOn_bind_ok held, if_neg (by simp [Model.stateCount]),
    InPlace.runOn_bind_ok (InPlace.runOn_get m)]
  exact (InPlace.runOn_bind_ok cut).trans (runChunks_single _ m)

theorem Chosen.step (chosen : Chosen model goal values actions before s now) (whole : before.isWhole actions = true)
    (shape : actions.shape = [model.stateCount]) (state : s < model.stateCount) :
    (∃ y, ((greedyMemory (before.realSource values) fun s a x => x.writeWhole actions s a).bellmanStep model goal
        s).runOn now = (.ok (), y) ∧ Chosen model goal values actions before (s + 1) y) ∨
    ∃ e, ((greedyMemory (before.realSource values) fun s a x => x.writeWhole actions s a).bellmanStep model goal
        s).runOn now = (.error e, now) ∧
      (Model.table model).greedyChoice goal s (before.read values) = .error e := by
  have size : actions.size = model.stateCount := View.size_vector shape
  have looked : (InPlace.lift ((Model.table model).greedyChoice goal s (before.realSource values now)) :
      InPlace (Storage α) α (Choice α)).runOn now
        = ((Model.table model).greedyChoice goal s (before.read values), now) :=
    congrArg (fun r => ((Model.table model).greedyChoice goal s r, now)) chosen.source
  rw [SweepMemory.bellmanStep, InPlace.runOn_bind_ok (InPlace.runOn_get now), InPlace.runOn_bind]
  dsimp only [greedyMemory]
  rw [looked]
  cases known : (Model.table model).greedyChoice goal s (before.read values) with
  | error e => exact Or.inr ⟨e, rfl, rfl⟩
  | ok choice =>
    have written : now.writeWhole actions s choice.2 = .ok (now.putCell actions s Scalar.zero choice.2) := by
      rw [writeWhole, chosen.whole, if_pos rfl, View.isVector, shape, size,
        if_pos (show ([model.stateCount].length == 1) = true from rfl), if_pos state]
    exact Or.inl ⟨_, InPlace.runOn_update written, chosen.next_state whole state (size ▸ state) known⟩

inductive GreedyEnds (model : Table α) (goal : Goal α) (values actions : View) (before : Storage α) :
    Outcome α Unit → Storage α → Prop
  | finished {now : Storage α} (chosen : Chosen model goal values actions before model.stateCount now) :
      GreedyEnds model goal values actions before (.ok ()) now
  | interrupted {s : Nat} {e : Failure α} {now : Storage α} (state : s < model.stateCount)
      (chosen : Chosen model goal values actions before s now)
      (failed : (Model.table model).greedyChoice goal s (before.read values) = .error e) :
      GreedyEnds model goal values actions before (.error e) now

theorem greedy_ends (shape : actions.shape = [model.stateCount]) (whole : before.isWhole actions = true)
    (room : (before.wholes actions).cells.size = model.stateCount) {outcome : Outcome α Unit} {after : Storage α}
    (ends : (greedy (.table model) goal values actions).runOn before = (outcome, after)) :
    GreedyEnds model goal values actions before outcome after := by
  have source : before.realSource values before = before.read values := by
    unfold realSource
    split <;> rfl
  have ready : Chosen model goal values actions before 0 before :=
    ⟨whole, room, source, fun i none => absurd none (Nat.not_lt_zero i), fun i _ => rfl⟩
  rw [greedy_runOn shape] at ends
  rcases forM_reaches (fun s state x chosen => chosen.step whole shape state) ready with
    ⟨y, ran, arrived⟩ | ⟨s, state, y, e, ran, chosen, failed⟩
  · cases ends.symm.trans ran
    exact .finished arrived
  · cases ends.symm.trans ran
    exact .interrupted state chosen failed

end Greedy

inductive RunEnds (model : Table α) (γ : α) (horizon : Nat) (policy : Option (PolicyData α))
    (terminal : TerminalValue α) (settings : Settings α) (v : View) (actions : Option View) (before : Storage α) :
    Outcome α Unit → Storage α → Prop
  | refused {e : Failure α} (cause : stagePolicy (.table model) horizon policy actions = .error e ∨
      (settings.verbose && settings.lineLength.isNone) = true ∨ terminal.vector model.stateCount = .error e) :
      RunEnds model γ horizon policy terminal settings v actions before (.error e) before
  | filled {rule : Option (Policy α)} {last : Array α} {outcome : Outcome α Unit} {now : Storage α}
      (accepted : stagePolicy (.table model) horizon policy actions = .ok rule)
      (known : terminal.vector model.stateCount = .ok last)
      (filled : Filled (BackwardInduction.decision (.table model) (.finite γ horizon) rule) horizon model.stateCount v
        (actions.getD ⟨v.buffer, 0, [0]⟩) last before outcome now) :
      RunEnds model γ horizon policy terminal settings v actions before outcome now

section Ends

variable {model : Table α} {γ : α} {policy : Option (PolicyData α)} {terminal : TerminalValue α} {settings : Settings α}
  {actions : Option View} {e : Failure α}

theorem valueIteration_ends (lends : before.Lends horizon model.stateCount v actions) {j : Journal α}
    {outcome : Outcome α Unit} {after : Workspace (Storage α) α}
    (ends : (valueIteration (.table model) (.finite γ horizon) policy terminal settings (some v) actions).runOn
      ⟨before, j⟩ = (outcome, after)) :
    RunEnds model γ horizon policy terminal settings v actions before outcome after.memory := by
  rw [valueIteration, if_neg (by rw [lends.shape]; simp [Model.stateCount]), InPlace.runOn_bind,
    InPlace.runOn_lift] at ends
  cases accepted : stagePolicy (.table model) horizon policy actions with
  | error e =>
    rw [accepted] at ends
    cases ends
    exact .refused (Or.inl accepted)
  | ok rule =>
    rw [accepted] at ends
    obtain ⟨valid, some⟩ := stagePolicy_ok accepted
    obtain ⟨outcome', w, ran, ended⟩ := run_fills valid (lends.fits some) terminal settings j
    cases ends.symm.trans ran
    rcases ended with ⟨e, rfl, same, cause⟩ | ⟨last, known, filled⟩
    · rw [same]
      exact .refused (Or.inr cause)
    · exact .filled accepted known filled

-- Where actions lead to states, filling the stages only fails for want of actions: at the last stage already, and at
-- the first state that has none.
theorem Stopped.first_empty (listed : (Model.table model).Listed) (fits : before.Fits horizon model.stateCount v p true)
    (stopped : Stopped (BackwardInduction.decision (.table model) (.finite γ horizon) none) horizon model.stateCount v p
      last before t s e now) :
    t + 1 = horizon ∧ (Model.table model).FirstEmpty s ∧ e = .emptyActionSet s := by
  have below := stopped.stage
  obtain ⟨none, rfl⟩ := Model.greedyChoice_error listed rfl
    (stopped.reached.row_room fits (Nat.lt_succ_self t) below) stopped.state (Outcome.map_eq_error.mp stopped.failed)
  have acts {k i : Nat} (inside : k < horizon) (state : i < model.stateCount) (past : t < k ∨ k = t ∧ i < s) :
      (Model.table model).actionCount (i : Nat) ≠ .ok 0 := by
    obtain ⟨c, known, _⟩ := stopped.reached.done k inside i state past
    obtain ⟨choice, chosen, _⟩ := Outcome.map_eq_ok.mp known
    exact Model.acts_of_choice chosen
  have first : (Model.table model).FirstEmpty s :=
    ⟨stopped.state, none, fun i before => acts below (before.trans stopped.state) (Or.inr ⟨rfl, before⟩)⟩
  refine ⟨?_, first, rfl⟩
  by_contra earlier
  exact acts (show t + 1 < horizon by omega) stopped.state (Or.inl (Nat.lt_succ_self t)) none

theorem Stopped.unreadable (listed : (Model.table model).Listed)
    (fits : before.Fits horizon model.stateCount v p optimise) {q : Policy α} (valid : q.validate (.table model) (some (.int horizon)) = .ok ())
    (stopped : Stopped (BackwardInduction.decision (.table model) (.finite γ horizon) (some q)) horizon
      model.stateCount v p last before t s e now) : ¬(q.atStage t).Readable s ∧ e = .invalidInput := by
  have failed := Outcome.map_eq_error.mp stopped.failed
  have room := stopped.reached.row_room fits (Nat.lt_succ_self t) stopped.stage
  have discount : (Goal.objective (.finite γ horizon)).discount = .ok γ := rfl
  rcases Model.policyValue_valid listed discount room (Policy.atStage_valid valid stopped.stage)
    (q.atStage_stationary t) stopped.state with ⟨value, known⟩ | ⟨unreadable, unread⟩
  · cases failed.symm.trans known
  · cases failed.symm.trans unread
    exact ⟨unreadable, rfl⟩

-- What can be wrong with a model whose actions lead to states, or with the policy that is followed, at a state of a
-- stage where a run fails.
inductive Flaw (model : Table α) (horizon : Nat) : Option (Policy α) → Nat → Nat → Failure α → Prop
  | idle {t s : Nat} (final : t + 1 = horizon) (first : (Model.table model).FirstEmpty s) :
      Flaw model horizon none t s (.emptyActionSet s)
  | unreadable {q : Policy α} {t s : Nat} (unread : ¬(q.atStage t).Readable s) :
      Flaw model horizon (some q) t s .invalidInput

theorem RunEnds.flaw (listed : (Model.table model).Listed) (lends : before.Lends horizon model.stateCount v actions)
    (ends : RunEnds model γ horizon policy terminal settings v actions before (.error e) now) :
    now = before ∨ ∃ rule last t s, t < horizon ∧ s < model.stateCount ∧
      Reached (BackwardInduction.decision (.table model) (.finite γ horizon) rule) horizon model.stateCount v
        (actions.getD ⟨v.buffer, 0, [0]⟩) last before t s now ∧ Flaw model horizon rule t s e := by
  cases ends with
  | refused => exact Or.inl rfl
  | @filled rule last _ _ accepted _ filled =>
    obtain ⟨valid, some⟩ := stagePolicy_ok accepted
    cases filled with
    | @interrupted t s _ _ stopped =>
      refine Or.inr ⟨rule, last, t, s, stopped.stage, stopped.state, stopped.reached, ?_⟩
      cases rule with
      | none =>
        obtain ⟨final, first, rfl⟩ := stopped.first_empty listed (lends.fits some)
        exact .idle final first
      | some q =>
        obtain ⟨unread, rfl⟩ := stopped.unreadable listed (lends.fits some) (valid q rfl)
        exact .unreadable unread

theorem GreedyEnds.first_empty {goal : Goal α} {values actions : View} {discount : α} {vector : Array α}
    (listed : (Model.table model).Listed) (known : goal.discount = .ok discount)
    (source : before.read values = Reader.ofArray vector) (room : model.stateCount ≤ vector.size)
    (ends : GreedyEnds model goal values actions before (.error e) now) :
    ∃ s, (Model.table model).FirstEmpty s ∧ e = .emptyActionSet s ∧ Chosen model goal values actions before s now := by
  cases ends with
  | @interrupted s _ _ state chosen failed =>
    rw [source] at failed
    obtain ⟨none, rfl⟩ := Model.greedyChoice_error listed known room state failed
    refine ⟨s, ⟨state, none, fun i below => ?_⟩, rfl, chosen⟩
    obtain ⟨c, taken, _⟩ := chosen.done i below
    exact Model.acts_of_choice taken

-- A failing run in a caller's storage leaves what it has found so far and the rest as it was. Where actions lead to
-- states it leaves everything as it was, unless a state has no actions or the weights of a policy cannot be read.
theorem stopped_runs_leave_rest (model : Table α) :
    (∀ {γ : α} {horizon : Nat} {policy terminal settings v actions} {before : Storage α} {j outcome after},
      before.Lends horizon model.stateCount v actions →
      (valueIteration (.table model) (.finite γ horizon) policy terminal settings (some v) actions).runOn ⟨before, j⟩
        = (outcome, after) →
      RunEnds model γ horizon policy terminal settings v actions before outcome after.memory ∧
      ((Model.table model).Listed → ∀ e, outcome = .error e →
        after.memory = before ∨ ∃ rule last t s, t < horizon ∧ s < model.stateCount ∧
          Reached (BackwardInduction.decision (.table model) (.finite γ horizon) rule) horizon model.stateCount v
            (actions.getD ⟨v.buffer, 0, [0]⟩) last before t s after.memory ∧ Flaw model horizon rule t s e)) ∧
    ∀ {goal : Goal α} {values actions : View} {before : Storage α} {outcome after},
      actions.shape = [model.stateCount] → before.isWhole actions = true →
      (before.wholes actions).cells.size = model.stateCount →
      (greedy (.table model) goal values actions).runOn before = (outcome, after) →
      GreedyEnds model goal values actions before outcome after ∧
      ((Model.table model).Listed → ∀ discount vector, goal.discount = .ok discount →
        before.read values = Reader.ofArray vector → model.stateCount ≤ vector.size → ∀ e, outcome = .error e →
        ∃ s, (Model.table model).FirstEmpty s ∧ e = .emptyActionSet s ∧
          Chosen model goal values actions before s after) := by
  constructor
  · intro γ horizon policy terminal settings v actions before j outcome after lends ran
    have ends := valueIteration_ends lends ran
    refine ⟨ends, ?_⟩
    rintro listed e rfl
    exact ends.flaw listed lends
  · intro goal values actions before outcome after shape whole room ran
    have ends := greedy_ends shape whole room ran
    refine ⟨ends, ?_⟩
    rintro listed discount vector known source wide e rfl
    exact ends.first_empty listed known source wide

end Ends

section Instances

def stranded : Table (Extended ℚ) := ⟨#[#[.ok [⟨.index 0, .whole 1, .whole 1⟩]], #[]]⟩

def lent : Storage (Extended ℚ) := ⟨#[.reals (Array.replicate 4 (.finite 7)), .wholes #[7, 7]]⟩

def lentValues : View := ⟨0, 0, [2, 2]⟩

def lentActions : View := ⟨1, 0, [1, 2]⟩

def strandedRun : InPlace (Workspace (Storage (Extended ℚ)) (Extended ℚ)) (Extended ℚ) Unit :=
  valueIteration (.table stranded) (.finite (.finite (1 / 2)) 1) none .zero (.quiet 10 1 0) (some lentValues)
    (some lentActions)

def strandedGreedy : InPlace (Storage (Extended ℚ)) (Extended ℚ) Unit :=
  greedy (.table stranded) (.objective (.finite (.finite (1 / 2)) 1)) (View.pair 0) (View.pair 1)

theorem lends_lent : lent.Lends 1 2 lentValues (some lentActions) where
  shape := rfl
  real := rfl
  room := rfl
  decisions := by
    rintro _ ⟨⟩
    exact ⟨rfl, rfl, rfl⟩

theorem listed_stranded : (Model.table stranded).Listed := by
  intro s inside
  match s, inside with
  | 0, _ =>
    refine ⟨1, rfl, fun a below => ?_⟩
    obtain rfl : a = 0 := by omega
    exact ⟨_, rfl, List.forall_mem_singleton.mpr ⟨0, Nat.two_pos, rfl⟩⟩
  | 1, _ => exact ⟨0, rfl, fun a below => absurd below (Nat.not_lt_zero a)⟩

theorem stopped_runs_leave_rest_stranded :
    (∃ after last, strandedRun.runOn ⟨lent, Journal.empty⟩ = (.error (.emptyActionSet 1), after) ∧
      Reached (BackwardInduction.decision (.table stranded) (.finite (.finite (1 / 2)) 1) none) 1 2 lentValues
        lentActions last lent 0 1 after.memory) ∧
    ∃ after, strandedGreedy.runOn lent = (.error (.emptyActionSet 1), after) ∧
      Chosen stranded (.objective (.finite (.finite (1 / 2)) 1)) (View.pair 0) (View.pair 1) lent 1 after := by
  obtain ⟨runs, choices⟩ := stopped_runs_leave_rest stranded
  constructor
  · have ran : strandedRun.runOn ⟨lent, Journal.empty⟩
        = (.error (.emptyActionSet 1), (strandedRun.runOn ⟨lent, Journal.empty⟩).2) := rfl
    obtain ⟨_, flawed⟩ := runs lends_lent ran
    rcases flawed listed_stranded _ rfl with same | ⟨rule, last, t, s, stage, _, reached, flaw⟩
    · have written : (((strandedRun.runOn ⟨lent, Journal.empty⟩).2.memory.reals lentValues).cells
          == (lent.reals lentValues).cells) = false := by decide +kernel
      rw [same] at written
      simp at written
    · generalize e : (.emptyActionSet 1 : Failure (Extended ℚ)) = failure at flaw
      cases flaw with
      | @idle t s final first =>
        cases e
        obtain rfl : t = 0 := by omega
        exact ⟨_, last, ran, reached⟩
      | unreadable => cases e
  · have ran : strandedGreedy.runOn lent = (.error (.emptyActionSet 1), (strandedGreedy.runOn lent).2) := rfl
    obtain ⟨_, flawed⟩ := choices rfl rfl rfl ran
    obtain ⟨s, _, same, chosen⟩ := flawed listed_stranded (.finite (1 / 2)) #[.finite 7, .finite 7] rfl
      (read_cells rfl rfl) le_rfl _ rfl
    cases same
    exact ⟨_, ran, chosen⟩

-- The first state pays and is kept, the second one has no actions. The calls fail, and the cells
-- are not what they were.
theorem interrupted_runs_overwrite :
    lent.Lends 1 2 lentValues (some lentActions) ∧
    (∃ after, strandedRun.runOn ⟨lent, Journal.empty⟩ = (.error (.emptyActionSet 1), after) ∧
      (lent.reals lentValues).cells = #[.finite 7, .finite 7, .finite 7, .finite 7] ∧
      (after.memory.reals lentValues).cells = #[.finite 1, .finite 7, .finite 0, .finite 0] ∧
      (lent.wholes lentActions).cells = #[7, 7] ∧ (after.memory.wholes lentActions).cells = #[0, 7]) ∧
    ∃ after, strandedGreedy.runOn lent = (.error (.emptyActionSet 1), after) ∧
      (lent.wholes (View.pair 1)).cells = #[7, 7] ∧ (after.wholes (View.pair 1)).cells = #[0, 7] :=
  ⟨lends_lent, ⟨_, rfl, by decide +kernel⟩, _, rfl, by decide +kernel⟩

end Instances

end Storage

end MarkovDecision
