import MarkovDecision.Proofs.MergedModel
import MarkovDecision.Proofs.ValueProgram

namespace MarkovDecision

section Rows

variable {α : Type} [Scalar α]

namespace StateProgram

structure SummedRow (α : Type) where
  state : Nat
  action : Nat
  bound : Option α
  coefficients : Option (SparseRow α)

def RawRow.summed (width : Nat) (r : RawRow α) : SummedRow α :=
  ⟨r.state, r.action, r.bound.value?, (SparseMatrix.rowOf? width r.entries).map SparseRow.dropZeros⟩

def StateRows.summed (width : Nat) (x : StateRows α) : Bool × List (SummedRow α) :=
  (x.fixed, x.rows.map (RawRow.summed width))

def assemble (width : Nat) (states : List (Bool × List (SummedRow α))) : Outcome α (StateProgram α) := do
  let rows := states.flatMap (·.2)
  let bound ← Outcome.ofOption (rows.mapM (·.bound))
  let matrix ← Outcome.ofOption (rows.mapM (·.coefficients))
  return {
    matrix := ⟨width, matrix⟩
    bound := bound.toArray
    lower := (states.map fun s => if s.1 then Scalar.zero else Scalar.negInfinity).toArray
    upper := (states.map fun s => if s.1 then Scalar.zero else Scalar.infinity).toArray
    rowState := (rows.map (·.state)).toArray
    rowAction := (rows.map (·.action)).toArray
    rowOffsets := offsets (states.map fun s => s.2.length) }

theorem collect_summed (m : Model α) (rule : RowRule α) : collect m rule
    = ((List.range m.stateCount).mapM fun s : Nat => (stateRows m rule s).map (StateRows.summed m.stateCount))
      >>= assemble m.stateCount := by
  rw [collect, Outcome.mapM_map fun _ _ => rfl]
  cases (List.range m.stateCount).mapM (fun s : Nat => stateRows m rule s) with
  | error e => rfl
  | ok states =>
    have rows : (states.map (StateRows.summed m.stateCount)).flatMap (·.2)
        = (states.flatMap (·.rows)).map (RawRow.summed m.stateCount) := by
      rw [List.flatMap_map, List.map_flatMap]
      rfl
    have counts : (fun s : Bool × List (SummedRow α) => s.2.length) ∘ StateRows.summed m.stateCount
        = fun s => s.rows.length := funext fun _ => List.length_map _
    have matrix : (SparseMatrix.ofEntries? m.stateCount ((states.flatMap (·.rows)).map (·.entries))).map
          SparseMatrix.dropZeros
        = (((states.flatMap (·.rows)).map (RawRow.summed m.stateCount)).mapM fun r : SummedRow α => r.coefficients).map
          fun rows => ⟨m.stateCount, rows⟩ := by
      have each : (states.flatMap (·.rows)).mapM (fun r : RawRow α => (r.summed m.stateCount).coefficients)
          = List.map SparseRow.dropZeros <$> (states.flatMap (·.rows)).mapM fun r : RawRow α =>
            SparseMatrix.rowOf? m.stateCount r.entries := Outcome.mapM_after fun _ _ => rfl
      rw [SparseMatrix.ofEntries?, List.mapM_map, List.mapM_map, Option.map_map]
      exact (Option.map_map (fun rows => (⟨m.stateCount, rows⟩ : SparseMatrix α)) (List.map SparseRow.dropZeros)
        _).symm.trans (congrArg (Option.map _) each.symm)
    change _ = assemble m.stateCount (states.map (StateRows.summed m.stateCount))
    rw [assemble, Outcome.ok_bind]
    dsimp only
    rw [rows, List.mapM_map]
    refine bind_congr fun bound => ?_
    cases before : SparseMatrix.ofEntries? m.stateCount ((states.flatMap (·.rows)).map (·.entries)) <;>
      cases after : ((states.flatMap (·.rows)).map (RawRow.summed m.stateCount)).mapM
          fun r : SummedRow α => r.coefficients <;>
      rw [before, after] at matrix
    · rfl
    · cases matrix
    · cases matrix
    · have matrix := Option.some.inj matrix
      dsimp only at matrix
      rw [Outcome.ofOption_some, Outcome.ofOption_some, Outcome.ok_bind, Outcome.ok_bind, matrix]
      simp only [List.map_map, counts]
      rfl

theorem stateRows_summed {m : Model α} {s k : Nat} (positive : 0 < k) (count : m.actionCount s = .ok (k : Int))
    (rule : RowRule α) (width : Nat) : (stateRows m rule s).map (StateRows.summed width)
      = (if rule.fixTerminal then m.isTerminal s else .ok false) >>= fun fixed => if fixed then .ok (true, []) else
        ((List.range k).mapM fun a : Nat => (rawRow m rule s a).map (RawRow.summed width)).map (Prod.mk false) := by
  have some : ¬((k : Int) == 0) = true := by simpa using positive.ne'
  rw [stateRows, count, Outcome.ok_bind, if_neg some, Int.toNat_natCast, Outcome.mapM_map fun _ _ => rfl]
  cases rule.fixTerminal with
  | false => cases (List.range k).mapM (fun a : Nat => rawRow m rule s a) <;> rfl
  | true =>
    rw [if_pos rfl, if_pos rfl]
    cases m.isTerminal s with
    | error e => rfl
    | ok fixed => cases fixed <;> cases (List.range k).mapM (fun a : Nat => rawRow m rule s a) <;> rfl

theorem collect_congr {m m' : Model α} {rule : RowRule α} (states : m.stateCount = m'.stateCount)
    (each : ∀ s < m.stateCount, (stateRows m rule s).map (StateRows.summed m.stateCount)
      = (stateRows m' rule s).map (StateRows.summed m.stateCount)) : collect m rule = collect m' rule := by
  rw [collect_summed, collect_summed, ← states]
  exact congrArg (· >>= _) (Outcome.mapM_congr fun s member => each s (List.mem_range.mp member))

end StateProgram

-- The only action of a state leads back for sure and pays nothing, all its outcomes taken together; but
-- there are several of them.
def FlatModel.splitLoop (f : FlatModel α) (s : Nat) : Bool :=
  match f.actionCount (s : Nat), f.transitions (s : Nat) 0 with
  | .ok 1, .ok ts => decide (1 < ts.length) && ts.all (fun t => t.next.names (s : Nat))
    && Scalar.isSurely (Scalar.sum (ts.map (·.probability.value)))
    && Scalar.eq (Scalar.sum (ts.map fun t => t.probability.value * t.reward.value)) Scalar.zero
  | _, _ => false

end Rows

section Loops

variable {K : Type} [Field K] [LinearOrder K] [FloorRing K]

namespace Chance

structure Loop (s : Int) (es : List (Chance K)) : Prop where
  back : ∀ e ∈ es, e.next = s
  sure : Scalar.isSurely (.finite (es.map (·.probability)).sum : Extended K) = true
  free : (es.map fun e => e.probability * e.reward).sum = 0

def closes (s : Int) : List (Chance K) → Bool
  | [e] => decide (e.next = s) && Scalar.isSurely (.finite e.probability : Extended K) && decide (e.reward = 0)
  | _ => false

variable {s : Int} {es : List (Chance K)}

theorem closes_iff (positive : Positive es) : closes s es = true ↔ es.length = 1 ∧ Loop s es := by
  match es with
  | [] => simp [closes]
  | [e] =>
    have some : e.probability ≠ 0 := (positive e List.mem_cons_self).ne'
    simp only [closes, Bool.and_eq_true, decide_eq_true_eq, List.length_singleton, true_and]
    constructor
    · rintro ⟨⟨back, sure⟩, free⟩
      exact ⟨by simpa using back, by simpa using sure, by simp [free]⟩
    · intro loop
      have free := loop.free
      rw [List.map_singleton, List.sum_singleton, mul_eq_zero_iff_left some] at free
      exact ⟨⟨loop.back e List.mem_cons_self, by simpa using loop.sure⟩, free⟩
  | _ :: _ :: _ => simp [closes]

theorem Loop.merged (loop : Loop s es) (some : es ≠ []) : (Chance.merge es).length = 1 := by
  have targets : Chance.targets es = [s] := by
    have ascending := targets_ascending es
    have only : ∀ t ∈ Chance.targets es, t = s := fun t target => by
      obtain ⟨e, member, rfl⟩ := mem_targets.mp target
      exact loop.back e member
    obtain ⟨e, member⟩ := List.exists_mem_of_ne_nil es some
    have first := mem_targets.mpr ⟨e, member, rfl⟩
    match found : Chance.targets es with
    | [] => simp [found] at first
    | [t] => rw [only t (by simp [found])]
    | t :: u :: rest =>
      have below : t < u := by
        rw [found] at ascending
        exact (List.pairwise_cons.mp ascending).1 u List.mem_cons_self
      rw [only t (by simp [found]), only u (by simp [found])] at below
      exact absurd below (lt_irrefl s)
  rw [Chance.merge, List.length_map, targets, List.length_singleton]

variable [IsStrictOrderedRing K]

theorem Positive.loop_merge (positive : Positive es) : Loop s (Chance.merge es) ↔ Loop s es := by
  have targets : (∀ e ∈ Chance.merge es, e.next = s) ↔ ∀ e ∈ es, e.next = s := by
    constructor
    · intro back e member
      have kept : ∃ e' ∈ Chance.merge es, e'.next = e.next :=
        ⟨_, List.mem_map_of_mem (mem_targets.mpr ⟨e, member, rfl⟩), rfl⟩
      obtain ⟨e', listed, same⟩ := kept
      rw [← same]
      exact back e' listed
    · intro back e member
      obtain ⟨e', listed, same⟩ := mem_targets.mp (positive.gathers member).target
      rw [← same]
      exact back e' listed
  have total := positive.sum_probability fun _ => 1
  simp only [mul_one] at total
  constructor
  · intro loop
    exact ⟨targets.mp loop.back, total ▸ loop.sure, positive.sum_reward ▸ loop.free⟩
  · intro loop
    exact ⟨targets.mpr loop.back, total.symm ▸ loop.sure, positive.sum_reward.symm ▸ loop.free⟩

theorem Acceptable.closes_merge {states : Nat} (acceptable : Acceptable states es) :
    closes s (Chance.merge es) = true ↔ Loop s es := by
  rw [closes_iff acceptable.positive.merge, acceptable.positive.loop_merge]
  exact ⟨And.right, fun loop => ⟨loop.merged acceptable.some, loop⟩⟩

end Chance

section Terminal

variable {m : Model (Extended K)} {s : Nat} {es : List (Chance K)}

theorem isTerminal_chances (count : m.actionCount (s : Nat) = .ok 1)
    (known : m.transitions (s : Nat) 0 = .ok (es.map Chance.transition)) :
    m.isTerminal (s : Nat) = .ok (Chance.closes s es) := by
  rw [Model.isTerminal, count, Outcome.ok_bind, if_neg (by simp), known, Outcome.ok_bind]
  match es with
  | [] => rfl
  | [e] =>
    have names : (StateLabel.index e.next).names (s : Nat) = decide (e.next = s) := by
      rw [Bool.eq_iff_iff, decide_eq_true_eq]
      simp [StateLabel.names, StateLabel.literal, Literal.equalsInt]
    have free : Scalar.eq (.finite e.reward : Extended K) Scalar.zero = decide (e.reward = 0) := by simp
    simp only [List.map_singleton, Chance.transition, names, free, Chance.closes, Quantity.value_real]
    rfl
  | _ :: _ :: _ => rfl

theorem splitLoop_chances {f : FlatModel (Extended K)} (count : f.actionCount (s : Nat) = .ok 1)
    (known : f.transitions (s : Nat) 0 = .ok (es.map Chance.transition)) :
    f.splitLoop s = true ↔ 1 < es.length ∧ Chance.Loop s es := by
  have names (e : Chance K) : (StateLabel.index e.next).names (s : Nat) = true ↔ e.next = s := by
    simp [StateLabel.names, StateLabel.literal, Literal.equalsInt]
  rw [FlatModel.splitLoop, count, known]
  simp only [List.length_map, List.all_map, Function.comp_def, List.map_map, Extended.scalarSum_eq, Chance.transition,
    Quantity.value_real, Extended.finite_mul, Extended.sum_map_finite, Extended.zero_eq, Extended.eq_finite,
    Bool.and_eq_true, decide_eq_true_eq, List.all_eq_true, names]
  constructor
  · rintro ⟨⟨⟨several, back⟩, sure⟩, free⟩
    exact ⟨several, back, sure, free⟩
  · rintro ⟨several, back, sure, free⟩
    exact ⟨⟨⟨several, back⟩, sure⟩, free⟩

end Terminal

end Loops

section Merged

variable {K : Type} [Field K] [LinearOrder K] [FloorRing K] [IsStrictOrderedRing K]

structure StateProgram.RowRule.Neutral (rule : StateProgram.RowRule (Extended K)) : Prop where
  own : ∃ x, rule.own = .finite x
  follow : ∃ x, rule.follow = .finite x
  bound : ∀ es : List (Chance K), Chance.Positive es →
    (rule.bound ((Chance.merge es).map Chance.transition)).value? = (rule.bound (es.map Chance.transition)).value?

theorem rawRow_merged {m m' : Model (Extended K)} {rule : StateProgram.RowRule (Extended K)} (neutral : rule.Neutral)
    {states s a : Nat} {es : List (Chance K)} (inside : s < states) (acceptable : Chance.Acceptable states es)
    (here : m.transitions (s : Nat) (a : Nat) = .ok (es.map Chance.transition))
    (there : m'.transitions (s : Nat) (a : Nat) = .ok ((Chance.merge es).map Chance.transition)) :
    (StateProgram.rawRow m rule s a).map (StateProgram.RawRow.summed states)
      = (StateProgram.rawRow m' rule s a).map (StateProgram.RawRow.summed states) := by
  obtain ⟨own, ownExact⟩ := neutral.own
  obtain ⟨follow, followExact⟩ := neutral.follow
  -- the entries of a row, with columns as plain numbers
  let entries (es : List (Chance K)) : List (Nat × K) :=
    (s, own) :: es.map fun e => (e.next.toNat, follow * e.probability)
  have places (es : List (Chance K)) (acceptable : Chance.Acceptable states es) :
      SparseMatrix.rowOf? states ((some (Int.ofNat s), rule.own)
        :: (es.map Chance.transition).map fun t => (t.next.place?, rule.follow * t.probability.value))
      = some (SparseRow.ofEntries (SparseRow.exactEntries (entries es))) := by
    have bounded : ∀ e ∈ entries es, e.1 < states := by
      refine List.forall_mem_cons.mpr ⟨inside, List.forall_mem_map.mpr fun e member => ?_⟩
      have range := acceptable.inside e member
      dsimp only
      omega
    rw [← SparseMatrix.rowOf?_exact bounded]
    refine congrArg (SparseMatrix.rowOf? states) (List.cons_eq_cons.mpr ⟨by rw [ownExact]; rfl, ?_⟩)
    rw [List.map_map, List.map_map]
    refine List.map_congr_left fun e member => ?_
    have whole : ((e.next.toNat : Nat) : Int) = e.next := Int.toNat_of_nonneg (acceptable.inside e member).1
    simp only [Function.comp_apply, Chance.transition, StateLabel.place?, Quantity.value_real, followExact,
      Extended.finite_mul, whole]
  have weighed (x : Nat → K) : SparseRow.weigh (entries (Chance.merge es)) x = SparseRow.weigh (entries es) x := by
    have merged := acceptable.positive.sum_probability fun i => follow * x i.toNat
    have later (es : List (Chance K)) : SparseRow.weigh (es.map fun e => (e.next.toNat, follow * e.probability)) x
        = (es.map fun e => e.probability * (follow * x e.next.toNat)).sum := by
      rw [SparseRow.weigh, List.map_map]
      refine congrArg List.sum (List.map_congr_left fun e _ => ?_)
      rw [Function.comp_apply]
      ring
    rw [SparseRow.weigh_cons, SparseRow.weigh_cons, later, later, merged]
  rw [StateProgram.rawRow, StateProgram.rawRow, here, there, Outcome.ok_bind, Outcome.ok_bind]
  refine congrArg Except.ok ?_
  simp only [StateProgram.RawRow.summed, places es acceptable, places _ acceptable.merge,
    neutral.bound es acceptable.positive, Option.map_some, SparseRow.dropZeros_congr weighed]

namespace FlatModel.MergeOf

variable {f g : FlatModel (Extended K)} (copies : f.MergeOf g)

include copies

theorem isTerminal {s : Nat} (inside : s < f.stateCount) : ∃ b, (Model.flat f).isTerminal (s : Nat) = .ok b ∧
    (Model.flat g).isTerminal (s : Nat) = .ok (b || f.splitLoop s) ∧ (f.splitLoop s = true → b = false) := by
  obtain ⟨k, positive, first, second, each⟩ := copies.actions s inside
  by_cases single : k = 1
  · subst single
    obtain ⟨es, acceptable, here, there⟩ := each 0 Nat.one_pos
    have split := splitLoop_chances first here
    have closed := Chance.closes_iff (s := (s : Int)) acceptable.positive
    have merged := acceptable.closes_merge (s := (s : Int))
    refine ⟨_, isTerminal_chances (m := .flat f) first here,
      (isTerminal_chances (m := .flat g) second there).trans (congrArg Except.ok ?_), fun loop => ?_⟩
    · have some := List.length_pos_iff.mpr acceptable.some
      rw [Bool.eq_iff_iff, Bool.or_eq_true, merged, closed, split]
      by_cases one : es.length = 1
      · simp [one]
      · simp [one, show 1 < es.length by omega]
    · have several := (split.mp loop).1
      exact Bool.eq_false_iff.mpr fun closes => by
        have one := (closed.mp closes).1
        omega
  · have other : ((k : Int) != 1) = true := by simpa using single
    have lasting (h : FlatModel (Extended K)) (count : h.actionCount (s : Nat) = .ok (k : Int)) :
        (Model.flat h).isTerminal (s : Nat) = .ok false := by
      have count : (Model.flat h).actionCount (s : Nat) = .ok (k : Int) := count
      rw [Model.isTerminal, count, Outcome.ok_bind, if_pos other]
      rfl
    have whole : f.splitLoop s = false := by
      rw [splitLoop, first]
      split
      · rename_i same _
        cases same
        exact absurd rfl single
      · rfl
    refine ⟨false, lasting f first, ?_, fun _ => rfl⟩
    rw [lasting g second, whole]
    rfl

theorem stateRows {rule : StateProgram.RowRule (Extended K)} (neutral : rule.Neutral) {s : Nat}
    (inside : s < f.stateCount)
    (terminal : rule.fixTerminal = true → (Model.flat f).isTerminal (s : Nat) = (Model.flat g).isTerminal (s : Nat)) :
    (StateProgram.stateRows (.flat f) rule s).map (StateProgram.StateRows.summed f.stateCount)
      = (StateProgram.stateRows (.flat g) rule s).map (StateProgram.StateRows.summed f.stateCount) := by
  obtain ⟨k, positive, first, second, each⟩ := copies.actions s inside
  have first : (Model.flat f).actionCount (s : Nat) = .ok (k : Int) := first
  have second : (Model.flat g).actionCount (s : Nat) = .ok (k : Int) := second
  have fixed : (if rule.fixTerminal then (Model.flat f).isTerminal (s : Nat) else .ok false)
      = if rule.fixTerminal then (Model.flat g).isTerminal (s : Nat) else .ok false := by
    split
    · exact terminal ‹_›
    · rfl
  have rows : ((List.range k).mapM fun a : Nat =>
        (StateProgram.rawRow (.flat f) rule s a).map (StateProgram.RawRow.summed f.stateCount))
      = (List.range k).mapM fun a : Nat =>
        (StateProgram.rawRow (.flat g) rule s a).map (StateProgram.RawRow.summed f.stateCount) :=
    Outcome.mapM_congr fun a member => by
      obtain ⟨es, acceptable, here, there⟩ := each a (List.mem_range.mp member)
      exact rawRow_merged neutral inside acceptable here there
  rw [StateProgram.stateRows_summed positive first, StateProgram.stateRows_summed positive second, fixed, rows]

theorem collect {rule : StateProgram.RowRule (Extended K)} (neutral : rule.Neutral)
    (terminal : rule.fixTerminal = true →
      ∀ s < f.stateCount, (Model.flat f).isTerminal (s : Nat) = (Model.flat g).isTerminal (s : Nat)) :
    StateProgram.collect (.flat f) rule = StateProgram.collect (.flat g) rule :=
  StateProgram.collect_congr copies.states fun _ inside =>
    copies.stateRows neutral inside fun fixes => terminal fixes _ inside

theorem terminalStates : ∃ p : Nat → Bool,
    (Model.flat f).terminalStates = .ok ((List.range f.stateCount).filter p) ∧
    (Model.flat g).terminalStates = .ok ((List.range f.stateCount).filter fun s => p s || f.splitLoop s) ∧
    ∀ s < f.stateCount, f.splitLoop s = true → p s = false := by
  choose! p here there apart using fun s (inside : s < f.stateCount) => copies.isTerminal inside
  refine ⟨p, Outcome.filterM_ok fun s member => here s (List.mem_range.mp member), ?_, apart⟩
  rw [Model.terminalStates, show (Model.flat g).stateCount = f.stateCount from copies.states.symm]
  exact Outcome.filterM_ok fun s member => there s (List.mem_range.mp member)

end FlatModel.MergeOf

theorem neutral_total : StateProgram.RowRule.Neutral (K := K)
    ⟨-Scalar.one, Scalar.one, fun ts => (StateProgram.expectedReward ts).neg, true⟩ := by
  refine ⟨⟨_, Extended.neg_one⟩, ⟨_, Extended.one_eq⟩, fun es positive => ?_⟩
  have paid (es : List (Chance K)) : (StateProgram.expectedReward (es.map Chance.transition)).neg.value
      = .finite (-(es.map fun e => e.probability * e.reward).sum) := by
    rw [Quantity.value_neg, expectedReward_sum, List.map_map, ← Extended.finite_neg, ← Extended.sum_map_finite]
    rfl
  rw [Quantity.value?_finite (paid es), Quantity.value?_finite (paid (Chance.merge es)), positive.sum_reward]

section Whole

variable {f g : FlatModel (Extended K)} (copies : f.MergeOf g) (whole : ∀ s < f.stateCount, f.splitLoop s = false)

include copies whole

theorem FlatModel.MergeOf.isTerminal_whole {s : Nat} (inside : s < f.stateCount) :
    (Model.flat f).isTerminal (s : Nat) = (Model.flat g).isTerminal (s : Nat) := by
  obtain ⟨b, here, there, _⟩ := copies.isTerminal inside
  rw [here, there, whole s inside, Bool.or_false]

theorem FlatModel.MergeOf.totalProgram : StateProgram.value (.flat f) (.objective .total)
    = StateProgram.value (.flat g) (.objective .total) :=
  copies.collect neutral_total fun _ _ inside => copies.isTerminal_whole whole inside

theorem FlatModel.MergeOf.someTransience :
    StateProgram.someTransience (.flat f) = StateProgram.someTransience (.flat g) :=
  copies.collect ⟨⟨_, Extended.one_eq⟩, ⟨_, Extended.neg_one⟩, fun _ _ => rfl⟩
    fun _ _ inside => copies.isTerminal_whole whole inside

theorem FlatModel.MergeOf.everyTransience :
    StateProgram.everyTransience (.flat f) = StateProgram.everyTransience (.flat g) :=
  copies.collect ⟨⟨_, Extended.neg_one⟩, ⟨_, Extended.one_eq⟩, fun _ _ => rfl⟩
    fun _ _ inside => copies.isTerminal_whole whole inside

end Whole

-- The terminal states of a merged copy are those of the other copy and the states with a split loop. Where
-- there is no such state, the programs of the analyses without discount are the same, and so is whatever
-- comes of them with any backend.
theorem merging_keeps_programs {m : Model (Extended K)} {f : FlatModel (Extended K)} (made : m.flatten false = .ok f)
    (exact : m.Exact) : ∃ g, m.flatten true = .ok g ∧
      (∃ ends ends', (Model.flat f).terminalStates = .ok ends ∧ (Model.flat g).terminalStates = .ok ends' ∧
        (∀ s, s ∈ ends' ↔ s ∈ ends ∨ s < f.stateCount ∧ f.splitLoop s = true) ∧
        (ends = ends' ↔ ∀ s < f.stateCount, f.splitLoop s = false)) ∧
      ((∀ s < f.stateCount, f.splitLoop s = false) →
        StateProgram.value (.flat f) (.objective .total) = StateProgram.value (.flat g) (.objective .total) ∧
        StateProgram.someTransience (.flat f) = StateProgram.someTransience (.flat g) ∧
        StateProgram.everyTransience (.flat f) = StateProgram.everyTransience (.flat g) ∧
        ∀ settings backend, someTransient (.flat f) settings backend = someTransient (.flat g) settings backend ∧
          everyTransient (.flat f) settings backend = everyTransient (.flat g) settings backend ∧
          solveByProgram (.flat f) .total settings backend = solveByProgram (.flat g) .total settings backend) := by
  obtain ⟨g, merged, copies⟩ := flatten_merged made exact
  obtain ⟨p, here, there, apart⟩ := copies.terminalStates
  refine ⟨g, merged, ⟨_, _, here, there, fun s => ?_, ?_⟩, fun whole => ?_⟩
  · simp only [List.mem_filter, List.mem_range, Bool.or_eq_true]
    tauto
  · constructor
    · intro same s inside
      by_contra split
      have split : f.splitLoop s = true := by simpa using split
      have gained : s ∈ (List.range f.stateCount).filter fun s => p s || f.splitLoop s :=
        List.mem_filter.mpr ⟨List.mem_range.mpr inside, by rw [split, Bool.or_true]⟩
      rw [← same, List.mem_filter, apart s inside split] at gained
      exact Bool.false_ne_true gained.2
    · intro whole
      refine List.filter_congr fun s member => ?_
      rw [whole s (List.mem_range.mp member), Bool.or_false]
  · have total := copies.totalProgram whole
    have some := copies.someTransience whole
    have every := copies.everyTransience whole
    refine ⟨total, some, every, fun settings backend => ⟨?_, ?_, ?_⟩⟩
    · rw [someTransient, someTransient, some]
    · rw [everyTransient, everyTransient, every]
    · simp only [solveByProgram, total]

theorem merging_keeps_programs_returning : ∃ f g, (Model.table Process.returning.table).flatten false = .ok f ∧
    (Model.table Process.returning.table).flatten true = .ok g ∧
    StateProgram.value (.flat f) (.objective .total) = StateProgram.value (.flat g) (.objective .total) ∧
    ∀ settings backend, someTransient (.flat f) settings backend = someTransient (.flat g) settings backend := by
  have checked : (match (Model.table Process.returning.table).flatten false with
      | .ok f => (List.range f.stateCount).all fun s => !f.splitLoop s
      | .error _ => false) = true := by decide +kernel
  cases made : (Model.table Process.returning.table).flatten false with
  | error e =>
    rw [made] at checked
    cases checked
  | ok f =>
    rw [made] at checked
    obtain ⟨g, merged, _, agree⟩ := merging_keeps_programs made (table_exact Process.returning)
    obtain ⟨total, _, _, runs⟩ := agree fun s inside => by
      simpa using List.all_eq_true.mp checked s (List.mem_range.mpr inside)
    exact ⟨f, g, rfl, merged, total, fun settings backend => (runs settings backend).1⟩

def Process.revolving : Process 1 ℚ where
  actionCount _ := 1
  hasAction _ := Nat.one_pos
  branches s _ := [⟨s, 1 / 2, 0⟩, ⟨s, 1 / 2, 0⟩]

-- The only state is left for itself in two outcomes, both without pay: it is terminal in the merged
-- copy only.
theorem merging_ends_revolving : ∃ f g, (Model.table Process.revolving.table).flatten false = .ok f ∧
    (Model.table Process.revolving.table).flatten true = .ok g ∧
    (Model.flat f).terminalStates = .ok [] ∧ (Model.flat g).terminalStates = .ok [0] := by
  have checked : (match (Model.table Process.revolving.table).flatten false with
      | .ok f => decide (f.stateCount = 1) && f.splitLoop 0
      | .error _ => false) = true := by decide +kernel
  cases made : (Model.table Process.revolving.table).flatten false with
  | error e =>
    rw [made] at checked
    cases checked
  | ok f =>
    rw [made, Bool.and_eq_true, decide_eq_true_eq] at checked
    obtain ⟨single, split⟩ := checked
    obtain ⟨g, merged, copies⟩ := flatten_merged made (table_exact Process.revolving)
    obtain ⟨p, here, there, apart⟩ := copies.terminalStates
    have before : p 0 = false := apart 0 (by omega) split
    rw [single] at here there
    refine ⟨f, g, rfl, merged, here.trans (congrArg Except.ok ?_), there.trans (congrArg Except.ok ?_)⟩
    · simp [before]
    · simp [split]

end Merged

end MarkovDecision
