import MarkovDecision.Proofs.Sweep
import MarkovDecision.ValueIteration.Backward

namespace MarkovDecision

section Rows

variable {β : Type}

theorem foldl_modify (f : Nat → Array β → Array β) (states : List Nat) (rows : Array (Array β)) (t : Nat) :
    states.foldl (fun ys s => ys.modify t (f s)) rows
      = rows.modify t fun row => states.foldl (fun r s => f s r) row := by
  induction states generalizing rows with
  | nil =>
    refine Array.ext_getElem? fun k => ?_
    rw [Array.getElem?_modify]
    split <;> simp
  | cons s rest ih =>
    refine (ih _).trans (Array.ext_getElem? fun k => ?_)
    rw [Array.getElem?_modify, Array.getElem?_modify, Array.getElem?_modify]
    split <;> simp [Function.comp_def]

theorem getD_modify {f : Array β → Array β} (empty : f #[] = #[]) (rows : Array (Array β)) (t k : Nat) :
    (rows.modify t f).getD k #[] = if t = k then f (rows.getD k #[]) else rows.getD k #[] := by
  rw [Array.getD_eq_getD_getElem?, Array.getD_eq_getD_getElem?, Array.getElem?_modify]
  by_cases same : t = k
  · rw [if_pos same, if_pos same]
    cases rows[k]? with
    | none => exact empty.symm
    | some row => rfl
  · rw [if_neg same, if_neg same]

def rowsFrom (count n : Nat) (row : Nat → Array β) (blank : β) (t : Nat) : Array (Array β) :=
  Array.ofFn fun k : Fin count => if t ≤ k then row k else Array.replicate n blank

theorem rowsFrom_getElem? (count n : Nat) (row : Nat → Array β) (blank : β) (t k : Nat) :
    (rowsFrom count n row blank t)[k]?
      = if k < count then some (if t ≤ k then row k else Array.replicate n blank) else none := by
  rw [rowsFrom, Array.getElem?_ofFn]
  rfl

theorem rowsFrom_next {count n t : Nat} {row : Nat → Array β} (size : (row t).size = n) (blank default : β) :
    (List.range n).foldl (fun rows s => rows.modify t fun r => r.setIfInBounds s ((row t).getD s default))
      (rowsFrom count n row blank (t + 1)) = rowsFrom count n row blank t := by
  rw [foldl_modify fun s r => r.setIfInBounds s ((row t).getD s default)]
  refine Array.ext_getElem? fun k => ?_
  rw [Array.getElem?_modify, rowsFrom_getElem?, rowsFrom_getElem?]
  by_cases inside : k < count
  · rw [if_pos inside, if_pos inside]
    by_cases here : t = k
    · subst here
      have all := writes_all (fun s => (row t).getD s default)
        (Array.size_replicate : (Array.replicate n blank).size = n)
      rw [ofFn_getD size] at all
      rw [if_pos rfl, if_neg (by omega), if_pos le_rfl, Option.map_some]
      exact congrArg some all
    · rw [if_neg here]
      exact congrArg some (if_congr (by omega) rfl rfl)
  · rw [if_neg inside, if_neg inside]
    split <;> rfl

theorem rowsFrom_blank {count n t : Nat} {row : Nat → Array β} {blank : β}
    (idle : row t = Array.replicate n blank) :
    rowsFrom count n row blank (t + 1) = rowsFrom count n row blank t := by
  have same (k : Nat) : (if t + 1 ≤ k then row k else Array.replicate n blank)
      = if t ≤ k then row k else Array.replicate n blank := by
    by_cases here : t = k
    · subst here
      rw [if_neg (by omega), if_pos le_rfl, idle]
    · exact if_congr (by omega) rfl rfl
  refine Array.ext_getElem? fun k => ?_
  rw [rowsFrom_getElem?, rowsFrom_getElem?, same]

theorem rowsFrom_zero (count n : Nat) (row : Nat → Array β) (blank : β) :
    rowsFrom count n row blank 0 = Array.ofFn fun k : Fin count => row k :=
  congrArg Array.ofFn (funext fun _ => if_pos (Nat.zero_le _))

end Rows

namespace Stages

variable {α : Type} {n t : Nat} {v : Array α}

structure Ready (t n : Nat) (v : Array α) (b : Stages α) : Prop where
  next : b.valueRow (t + 1) = v
  values : (b.valueRow t).size = n
  actions : (b.actions.getD t #[]).size = n

def setValue (t s : Nat) (y : α) (b : Stages α) : Stages α :=
  { b with values := b.values.modify t fun row => row.setIfInBounds s y }

def setAction (t s : Nat) (a : Int) (b : Stages α) : Stages α :=
  { b with actions := b.actions.modify t fun row => row.setIfInBounds s a }

theorem setValue_row (t s : Nat) (y : α) (b : Stages α) (k : Nat) : (setValue t s y b).valueRow k
    = if t = k then (b.valueRow k).setIfInBounds s y else b.valueRow k :=
  getD_modify (by simp) b.values t k

theorem setAction_row (t s : Nat) (a : Int) (b : Stages α) (k : Nat) : (setAction t s a b).actions.getD k #[]
    = if t = k then (b.actions.getD k #[]).setIfInBounds s a else b.actions.getD k #[] :=
  getD_modify (by simp) b.actions t k

theorem writes_apart (t : Nat) (value : Nat → α) (action : Nat → Int) (states : List Nat) (b : Stages α) :
    states.foldl (fun c s => setAction t s (action s) (setValue t s (value s) c)) b
      = ⟨states.foldl (fun rows s => rows.modify t fun r => r.setIfInBounds s (value s)) b.values,
        states.foldl (fun rows s => rows.modify t fun r => r.setIfInBounds s (action s)) b.actions⟩ := by
  induction states generalizing b with
  | nil => rfl
  | cons s rest ih => exact ih _

theorem writes_values (t : Nat) (value : Nat → α) (states : List Nat) (b : Stages α) :
    states.foldl (fun c s => setValue t s (value s) c) b
      = ⟨states.foldl (fun rows s => rows.modify t fun r => r.setIfInBounds s (value s)) b.values,
        b.actions⟩ := by
  induction states generalizing b with
  | nil => rfl
  | cons s rest ih => exact ih _

theorem memory_keeps (t n : Nat) (v : Array α) :
    (Stages.memory.stage t).Keeps n v (Ready t n v) (setValue t) (setAction t) := by
  refine ⟨fun b ready => congrArg Reader.ofArray ready.next, fun s inside y b ready => ⟨?_, ?_⟩,
    fun s inside a b ready => ⟨?_, ?_⟩⟩
  · exact if_pos (by rw [ready.values]; exact inside)
  · refine ⟨?_, ?_, ready.actions⟩
    · rw [setValue_row, if_neg (by omega), ready.next]
    · rw [setValue_row, if_pos rfl, Array.size_setIfInBounds, ready.values]
  · exact if_pos (by rw [ready.actions]; exact inside)
  · refine ⟨ready.next, ready.values, ?_⟩
    rw [setAction_row, if_pos rfl, Array.size_setIfInBounds, ready.actions]

variable [Scalar α]

def filled (horizon n : Nat) (value : Nat → Array α) (action : Nat → Array Int) (t : Nat) : Stages α :=
  ⟨rowsFrom (horizon + 1) n value Scalar.zero t, rowsFrom horizon n action 0 t⟩

section Filling

variable {horizon : Nat} {value : Nat → Array α} {action : Nat → Array Int}

theorem filled_last : Stages.memory.putTerminal (value horizon) (zeros horizon n)
    = filled horizon n value action horizon := by
  refine congrArg₂ Stages.mk (Array.ext_getElem? fun k => ?_) (Array.ext_getElem? fun k => ?_)
  · rw [zeros, Array.getElem?_setIfInBounds, Array.size_replicate, Array.getElem?_replicate,
      rowsFrom_getElem?]
    by_cases last : horizon = k
    · rw [if_pos (by omega), if_pos (by omega), if_pos (by omega), if_pos last.le, last]
    · rw [if_neg (by omega)]
      by_cases inside : k < horizon + 1
      · rw [if_pos inside, if_pos inside, if_neg (by omega)]
      · rw [if_neg inside, if_neg inside]
  · rw [zeros, Array.getElem?_replicate, rowsFrom_getElem?]
    by_cases inside : k < horizon
    · rw [if_pos inside, if_pos inside, if_neg (by omega)]
    · rw [if_neg inside, if_neg inside]

theorem filled_ready (below : t < horizon) (next : value (t + 1) = v) :
    (filled horizon n value action (t + 1)).Ready t n v := by
  have row (k : Nat) (inside : k < horizon + 1) : (filled horizon n value action (t + 1)).valueRow k
      = if t + 1 ≤ k then value k else Array.replicate n Scalar.zero := by
    rw [valueRow, filled, Array.getD_eq_getD_getElem?, rowsFrom_getElem?, if_pos inside, Option.getD_some]
  have decision : (filled horizon n value action (t + 1)).actions[t]? = some (Array.replicate n 0) := by
    rw [filled, rowsFrom_getElem?, if_pos below, if_neg (by omega)]
  refine ⟨?_, ?_, ?_⟩
  · rw [row _ (by omega), if_pos le_rfl, next]
  · rw [row _ (by omega), if_neg (by omega), Array.size_replicate]
  · rw [Array.getD_eq_getD_getElem?, decision, Option.getD_some, Array.size_replicate]

theorem filled_chosen (values : (value t).size = n) (actions : (action t).size = n) (default : α) :
    (List.range n).foldl
      (fun b s => setAction t s ((action t).getD s 0) (setValue t s ((value t).getD s default) b))
      (filled horizon n value action (t + 1)) = filled horizon n value action t := by
  rw [writes_apart t (fun s => (value t).getD s default) (fun s => (action t).getD s 0)]
  exact congrArg₂ Stages.mk (rowsFrom_next values _ _) (rowsFrom_next actions _ _)

theorem filled_followed (values : (value t).size = n) (idle : action t = Array.replicate n 0) (default : α) :
    (List.range n).foldl (fun b s => setValue t s ((value t).getD s default) b)
      (filled horizon n value action (t + 1)) = filled horizon n value action t := by
  rw [writes_values t fun s => (value t).getD s default]
  exact congrArg₂ Stages.mk (rowsFrom_next values _ _) (rowsFrom_blank idle)

variable {m : Model α} {goal : Goal α} (value action) {default : α}

theorem filled_bellmanSweep {discount : α} (known : goal.discount = .ok discount)
    (columnar : ∀ f, m = .flat f → ∀ s < m.stateCount, f.greedyChoice discount s (Reader.ofArray (value (t + 1)))
      = m.greedyChoice goal s (Reader.ofArray (value (t + 1))))
    (below : t < horizon) (values : (value t).size = m.stateCount) (actions : (action t).size = m.stateCount)
    (choices : ∀ s < m.stateCount, m.greedyChoice goal s (Reader.ofArray (value (t + 1)))
      = .ok ((value t).getD s default, (action t).getD s 0)) :
    ((Stages.memory.stage t).bellmanSweep m goal .serial).runOn
      (filled horizon m.stateCount value action (t + 1))
      = (.ok (), filled horizon m.stateCount value action t) := by
  have keeps := memory_keeps t m.stateCount (value (t + 1))
  have cut : (Schedule.serial.chunks m.stateCount : Outcome α _) = .ok [List.range m.stateCount] := rfl
  rw [keeps.bellmanSweep_runOn known cut columnar _ _ choices (filled_ready below rfl),
    filled_chosen values actions]

theorem filled_policySweep {policy : Policy α} {i : Int} (below : t < horizon)
    (size : (value t).size = m.stateCount) (idle : action t = Array.replicate m.stateCount 0)
    (values : ∀ s < m.stateCount, m.policyValue goal i s policy (Reader.ofArray (value (t + 1)))
      = .ok ((value t).getD s default)) :
    ((Stages.memory.stage t).policySweep m goal i policy .serial).runOn
      (filled horizon m.stateCount value action (t + 1))
      = (.ok (), filled horizon m.stateCount value action t) := by
  have keeps := memory_keeps t m.stateCount (value (t + 1))
  have cut : (Schedule.serial.chunks m.stateCount : Outcome α _) = .ok [List.range m.stateCount] := rfl
  rw [keeps.policySweep_runOn cut _ values (filled_ready below rfl), filled_followed size idle]

end Filling

end Stages

namespace Workspace

variable {σ α β : Type} {x y z : σ}

def Moves (c : InPlace (Workspace σ α) α Unit) (x y : σ) : Prop :=
  ∀ j, ∃ j', c.runOn ⟨x, j⟩ = (.ok (), ⟨y, j'⟩)

theorem Moves.bind {c : InPlace (Workspace σ α) α Unit} {f : Unit → InPlace (Workspace σ α) α Unit}
    (first : Moves c x y) (rest : Moves (f ()) y z) : Moves (c >>= f) x z := by
  intro j
  obtain ⟨k, done⟩ := first j
  rw [InPlace.runOn_bind_ok done]
  exact rest k

theorem moves_memory {c : InPlace σ α Unit} (ran : c.runOn x = (.ok (), y)) :
    Moves (onMemory c) x y := by
  intro j
  refine ⟨j, ?_⟩
  change ((c.runOn x).1, (⟨(c.runOn x).2, j⟩ : Workspace σ α)) = _
  rw [ran]

theorem moves_journal {c : Journaled α Unit} (yields : c.Yields ()) (x : σ) : Moves (onJournal c) x x := by
  intro j
  obtain ⟨k, ran⟩ := yields j
  refine ⟨k, ?_⟩
  change ((c.runOn j).1, (⟨x, (c.runOn j).2⟩ : Workspace σ α)) = _
  rw [ran]

theorem onJournal_ok {c : Journaled α Unit} {w w' : Workspace σ α} (ran : (onJournal c).runOn w = (.ok (), w')) :
    c.runOn w.journal = (.ok (), w'.journal) := by
  change ((c.runOn w.journal).1, (⟨w.memory, (c.runOn w.journal).2⟩ : Workspace σ α)) = _ at ran
  obtain ⟨done, rfl⟩ := Prod.mk.inj ran
  exact Prod.ext done rfl

theorem moves_lift {c : Outcome α β} {b : β} {f : β → InPlace (Workspace σ α) α Unit} (known : c = .ok b)
    (rest : Moves (f b) x y) : Moves (InPlace.lift c >>= f) x y := by
  intro j
  rw [known, InPlace.runOn_bind_ok (InPlace.runOn_lift (.ok b) _)]
  exact rest j

theorem moves_get {f : Workspace σ α → InPlace (Workspace σ α) α Unit}
    (rest : ∀ w, Moves (f w) x y) : Moves (get >>= f) x y := by
  intro j
  rw [InPlace.runOn_bind_ok (InPlace.runOn_get _)]
  exact rest _ j

end Workspace

namespace BackwardInduction

open Workspace

variable {σ α : Type} [Scalar α] {mem : StageMemory σ α} {m : Model α} {o : Objective α}
  {policy : Option (Policy α)} {state : Nat → σ}

theorem stages_moves {k : Nat}
    (steps : ∀ t < k, (sweep mem m o policy t).runOn (state (t + 1)) = (.ok (), state t)) :
    Moves (stages mem m o policy k) (state k) (state 0) := by
  induction k with
  | zero => exact fun j => ⟨j, rfl⟩
  | succ t ih =>
    refine (moves_memory (steps t (Nat.lt_succ_self t))).bind <| moves_get fun w => ?_
    exact (moves_journal (Journaled.note_yields _) _).bind <| ih fun i below => steps i (by omega)

theorem run_moves {horizon : Nat} {terminal : TerminalValue α} {settings : Settings α} {w : Array α} {start : σ}
    (printable : (settings.verbose && settings.lineLength.isNone) = false)
    (last : terminal.vector m.stateCount = .ok w) (first : mem.putTerminal w start = state horizon)
    (steps : ∀ t < horizon, (sweep mem m o policy t).runOn (state (t + 1)) = (.ok (), state t)) :
    Moves (run mem m o horizon policy terminal settings) start (state 0) := by
  refine (moves_journal (Journaled.begin_yields printable _ _ _ _) _).bind <| moves_lift last ?_
  have placed : (InPlace.update (α := α) fun s => .ok (mem.putTerminal w s)).runOn start
      = (.ok (), state horizon) := InPlace.runOn_update (congrArg Except.ok first)
  refine (moves_memory placed).bind ?_
  exact (stages_moves steps).bind <| moves_journal (Journaled.note_yields _) _

end BackwardInduction

theorem finiteValueIteration_returns {α : Type} [Scalar α] {m : Model α} {o : Objective α} {horizon : Nat}
    {given : Option (PolicyData α)} {policy : Option (Policy α)} {terminal : TerminalValue α}
    {settings : Settings α} {value : Nat → Array α} {action : Nat → Array Int}
    (room : Tensor.fits settings.capacity [horizon + 1, m.stateCount] = true)
    (printable : (settings.verbose && settings.lineLength.isNone) = false)
    (valid : given.mapM (fun data => data.validate m (some (.int horizon))) = .ok policy)
    (last : terminal.vector m.stateCount = .ok (value horizon))
    (steps : ∀ t < horizon, (BackwardInduction.sweep Stages.memory m o policy t).runOn
      (Stages.filled horizon m.stateCount value action (t + 1))
      = (.ok (), Stages.filled horizon m.stateCount value action t)) (j : Journal α) :
    ∃ result j', (finiteValueIteration m o horizon given terminal settings).runOn j = (.ok result, j') ∧
      result.value = .staged (Array.ofFn fun t : Fin (horizon + 1) => value t) ∧
      result.policy = if policy.isNone then some (.markov (Array.ofFn fun t : Fin horizon => action t))
        else none := by
  obtain ⟨j', moved⟩ := BackwardInduction.run_moves printable last Stages.filled_last steps j
  have made : (Stages.make settings.capacity horizon m.stateCount : Outcome α (Stages α)) = .ok (.zeros horizon m.stateCount) :=
    if_pos room
  rw [Stages.filled, rowsFrom_zero, rowsFrom_zero] at moved
  have ran : (finiteValueIteration m o horizon given terminal settings).runOn j = (.ok {
      value := .staged (Array.ofFn fun t : Fin (horizon + 1) => value t)
      policy := if policy.isNone then some (.markov (Array.ofFn fun t : Fin horizon => action t)) else none
      iterations := horizon
      residual := none
      converged := true
      trace := BackwardInduction.trace j' }, j') := by
    rw [finiteValueIteration, made, InPlace.runOn_bind_ok (InPlace.runOn_lift (.ok _) j), valid,
      InPlace.runOn_bind_ok (InPlace.runOn_lift (.ok _) j), InPlace.runOn_bind_ok (InPlace.runOn_get j), moved]
    rfl
  exact ⟨_, j', ran, rfl, rfl⟩

theorem finiteValueIteration_starts {α : Type} [Scalar α] {m : Model α} {o : Objective α} {horizon : Nat}
    {given : Option (PolicyData α)} {terminal : TerminalValue α} {settings : Settings α}
    {result : ValueIterationResult α} {j j' : Journal α}
    (ran : (finiteValueIteration m o horizon given terminal settings).runOn j = (.ok result, j')) :
    Tensor.fits settings.capacity [horizon + 1, m.stateCount] = true ∧
      (settings.verbose && settings.lineLength.isNone) = false := by
  unfold finiteValueIteration at ran
  obtain ⟨stages, _, made, ran⟩ := InPlace.runOn_bind_eq_ok ran
  obtain ⟨policy, before, _, ran⟩ := InPlace.runOn_bind_eq_ok ran
  rw [InPlace.runOn_bind_ok (InPlace.runOn_get before)] at ran
  rcases walked : (BackwardInduction.run Stages.memory m o horizon policy terminal settings).runOn
    ⟨stages, before⟩ with ⟨outcome, w⟩
  rw [walked] at ran
  obtain ⟨_, _, _, ran⟩ := InPlace.runOn_bind_eq_ok ran
  obtain ⟨_, _, passed, _⟩ := InPlace.runOn_bind_eq_ok ran
  obtain rfl := (InPlace.lift_eq_ok passed).1
  constructor
  · have made := (InPlace.lift_eq_ok made).1
    unfold Stages.make at made
    split at made
    · assumption
    · cases made
  · obtain ⟨_, _, opened, _⟩ := InPlace.runOn_bind_eq_ok walked
    exact (Journaled.begin_ok (Workspace.onJournal_ok opened)).1

end MarkovDecision
