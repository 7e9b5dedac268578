import MarkovDecision.Proofs.BuiltModel
import MarkovDecision.Proofs.StageSweeps

namespace MarkovDecision

section Search

section Extended

variable {K : Type} [Field K] [LinearOrder K] [FloorRing K]

theorem Extended.above_iff {x : Extended K} :
    Scalar.lt Scalar.negInfinity x = true ↔ x = .infinite false ∨ ∃ y, x = .finite y := by
  constructor
  · intro above
    cases x with
    | finite y => exact Or.inr ⟨y, rfl⟩
    | infinite negative => cases negative <;> first | exact Or.inl rfl | cases above
    | nan => cases above
  · rintro (rfl | ⟨y, rfl⟩) <;> rfl

theorem Extended.lt_infinity (x : Extended K) : Scalar.lt (.infinite false) x = false := by
  cases x <;> rfl

theorem Extended.comparable_above : Comparable fun x : Extended K => Scalar.lt Scalar.negInfinity x = true where
  above _ above := above
  strict x y above above' less := by
    obtain rfl | ⟨x, rfl⟩ := above_iff.mp above
    · simp [lt_infinity] at less
    · obtain rfl | ⟨y, rfl⟩ := above_iff.mp above'
      · exact lt_infinity _
      · exact comparable.strict _ _ ⟨x, rfl⟩ ⟨y, rfl⟩ less
  between x y z above above' above'' less := by
    obtain rfl | ⟨x, rfl⟩ := above_iff.mp above
    · simp [lt_infinity] at less
    · obtain rfl | ⟨z, rfl⟩ := above_iff.mp above''
      · exact Or.inl rfl
      · obtain rfl | ⟨y, rfl⟩ := above_iff.mp above'
        · exact Or.inr rfl
        · exact comparable.between _ _ _ ⟨x, rfl⟩ ⟨y, rfl⟩ ⟨z, rfl⟩ less

theorem Extended.above_or_never (x : Extended K) :
    Scalar.lt Scalar.negInfinity x = true ∨ ∀ y : Extended K, Scalar.lt y x = false := by
  cases x with
  | finite x => exact Or.inl rfl
  | infinite negative =>
    cases negative with
    | false => exact Or.inl rfl
    | true => exact Or.inr fun y => by rcases y with _ | ⟨_ | _⟩ | _ <;> rfl
  | nan => exact Or.inr fun y => by rcases y with _ | ⟨_ | _⟩ | _ <;> rfl

end Extended

section Decisions

variable {α : Type} [Scalar α]

def Model.Worthwhile (m : Model α) (γ : α) (v : Array α) (s : Nat) : Prop :=
  ∃ k : Nat, m.actionCount (s : Nat) = .ok (k : Int) ∧ ∃ a < k, ∃ ts q, m.transitions (s : Nat) (a : Nat) = .ok ts ∧
    backup γ (Reader.ofArray v) ts = .ok q ∧ Scalar.lt Scalar.negInfinity q = true

-- The lowest of the actions of the state that are worth most.
def Model.Foremost (m : Model α) (γ : α) (v : Array α) (s a : Nat) : Prop :=
  ∃ (k : Nat) (q : Nat → α), m.actionCount (s : Nat) = .ok (k : Int) ∧
    (∀ b < k, ∃ ts, m.transitions (s : Nat) (b : Nat) = .ok ts ∧ backup γ (Reader.ofArray v) ts = .ok (q b)) ∧
    FirstGreatest q k a

-- What a pass has decided: in every state the foremost action if there is a worthwhile one, and no
-- action otherwise. The search begins below every number with the action -1, which no state has.
structure Model.Decides (m : Model α) (γ : α) (v : Array α) (actions : Array Int) : Prop where
  size : actions.size = m.stateCount
  each : ∀ s < m.stateCount, ∃ k : Nat, m.actionCount (s : Nat) = .ok (k : Int) ∧
    ((¬m.Worthwhile γ v s ∧ actions[s]? = some (-1)) ∨
      (m.Worthwhile γ v s ∧ ∃ a < k, actions[s]? = some ((a : Nat) : Int) ∧ m.Foremost γ v s a))

end Decisions

variable {K : Type} [Field K] [LinearOrder K] [FloorRing K] {m : Model (Extended K)} {γ : Extended K}
  {v : Array (Extended K)} {s k : Nat}

theorem Model.greedyChoice_worthwhile {goal : Goal (Extended K)} (known : goal.discount = .ok γ) (positive : 0 < k)
    (count : m.actionCount (s : Nat) = .ok (k : Int)) {c : Choice (Extended K)}
    (chosen : m.greedyChoice goal (s : Nat) (Reader.ofArray v) = .ok c) :
    (¬m.Worthwhile γ v s ∧ c.2 = -1) ∨
      (m.Worthwhile γ v s ∧ ∃ a < k, c.2 = ((a : Nat) : Int) ∧ m.Foremost γ v s a) := by
  choose! q value using fun a (within : a < k) => m.actionValue_of_greedyChoice positive count chosen within
  rw [greedyChoice_ok (positiveCount_ok positive count) value] at chosen
  cases chosen
  have worth (a : Nat) (below : a < k) :
      ∃ ts, m.transitions (s : Nat) (a : Nat) = .ok ts ∧ backup γ (Reader.ofArray v) ts = .ok (q a) := by
    have value := value a below
    rw [actionValue, known, Outcome.ok_bind] at value
    exact Outcome.bind_ok.mp value
  rcases search_ends Extended.comparable_above q k fun a _ => Extended.above_or_never (q a) with
    ⟨stayed, none⟩ | ⟨b, found, leads⟩
  · refine Or.inl ⟨?_, congrArg Prod.snd stayed⟩
    rintro ⟨k', count', a, below, ts, x, listed, sum, above⟩
    obtain rfl : k' = k := Int.ofNat.inj (Except.ok.inj (count'.symm.trans count))
    obtain ⟨ts', listed', sum'⟩ := worth a below
    obtain rfl := Except.ok.inj (listed.symm.trans listed')
    obtain rfl := Except.ok.inj (sum.symm.trans sum')
    rw [none a below] at above
    cases above
  · obtain ⟨ts, listed, sum⟩ := worth b leads.within
    exact Or.inr ⟨⟨k, count, b, leads.within, ts, q b, listed, sum, leads.above⟩, b, leads.within,
      congrArg Prod.snd found, k, q, count, worth, leads⟩

theorem Model.bellman_decides (listed : m.Listed) (acts : ∀ s < m.stateCount, m.actionCount (s : Nat) ≠ .ok 0)
    (columnar : m.Columnar) {goal : Goal (Extended K)} (known : goal.discount = .ok γ) (size : v.size = m.stateCount)
    {b : SweepBuffers (Extended K)} (swept : m.bellman goal v .serial = .ok b) : m.Decides γ v b.actions := by
  obtain ⟨b', swept', sizes, chosen⟩ := Model.bellman_exists listed known size acts columnar
  obtain rfl := Except.ok.inj (swept.symm.trans swept')
  refine ⟨sizes.2, fun s inside => ?_⟩
  obtain ⟨k, count, _⟩ := listed s inside
  have positive : 0 < k := Nat.pos_of_ne_zero fun none => acts s inside (by rw [count, none]; rfl)
  have cell : b.actions[s]? = some (b.actions.getD s 0) := by
    rw [Array.getD_eq_getD_getElem?, Array.getElem?_eq_getElem (by rw [sizes.2]; exact inside), Option.getD_some]
  have decided := Model.greedyChoice_worthwhile known positive count (chosen s inside)
  dsimp only at decided
  refine ⟨k, count, ?_⟩
  rw [cell]
  rcases decided with ⟨none, action⟩ | ⟨worth, a, below, action, foremost⟩
  · exact Or.inl ⟨none, congrArg some action⟩
  · exact Or.inr ⟨worth, a, below, congrArg some action, foremost⟩

end Search

section Validation

variable {α : Type} [Scalar α] {m : Model α} {γ : α} {v : Array α} {actions : Array Int}

theorem Policy.checkAction_iff {s k : Nat} (count : m.actionCount (s : Nat) = .ok (k : Int)) :
    checkAction m actions s = .ok () ↔ ∃ a < k, actions[s]? = some ((a : Nat) : Int) := by
  refine ⟨checkAction_ok count, fun ⟨a, below, found⟩ => ?_⟩
  have action : entry (α := α) actions (s : Nat) = .ok (a : Int) := entry_ok.mpr found
  rw [checkAction, count, Outcome.ok_bind, action, Outcome.ok_bind, if_neg]
  · rfl
  · simp only [Bool.or_eq_true, decide_eq_true_eq, not_or, not_lt, not_le]
    omega

theorem Policy.checkStage_stationary : checkStage m (.stationary actions) = .ok () ↔
    actions.size = m.stateCount ∧ ∀ s < m.stateCount, checkAction m actions s = .ok () := by
  unfold checkStage
  simp only [length?, Outcome.ofOption_some, Outcome.ok_bind]
  rw [Outcome.unless_ok, Outcome.forM_ok, bne_eq_false_iff_eq]
  simp only [List.mem_range]

theorem Model.Decides.checkStage_iff (decides : m.Decides γ v actions) :
    Policy.checkStage m (.stationary actions) = .ok () ↔ ∀ s < m.stateCount, m.Worthwhile γ v s := by
  rw [Policy.checkStage_stationary]
  constructor
  · rintro ⟨_, checked⟩ s inside
    obtain ⟨k, count, ⟨_, nowhere⟩ | ⟨worth, _⟩⟩ := decides.each s inside
    · obtain ⟨a, _, found⟩ := Policy.checkAction_ok count (checked s inside)
      cases nowhere.symm.trans found
    · exact worth
  · refine fun worth => ⟨decides.size, fun s inside => ?_⟩
    obtain ⟨k, count, ⟨nothing, _⟩ | ⟨_, chosen⟩⟩ := decides.each s inside
    · exact absurd (worth s inside) nothing
    · obtain ⟨a, below, found, _⟩ := chosen
      exact (Policy.checkAction_iff count).mpr ⟨a, below, found⟩

theorem Model.Decides.validate_iff (decides : m.Decides γ v actions) :
    (Policy.stationary actions).validate m none = .ok () ↔ ∀ s < m.stateCount, m.Worthwhile γ v s := by
  rw [← decides.checkStage_iff]
  refine ⟨fun valid => ?_, Policy.validate_checked rfl⟩
  have only : [Policy.stationary actions].forM (Policy.checkStage m) = .ok () := valid
  exact Outcome.forM_ok.mp only _ (List.mem_singleton_self _)

theorem Model.Decides.validate_stages {horizon : Nat} {v : Nat → Array α} {decisions : Nat → Array Int}
    (decides : ∀ t < horizon, m.Decides γ (v t) (decisions t)) :
    (Policy.markov (Array.ofFn fun t : Fin horizon => decisions t)).validate m (some (.int horizon)) = .ok () ↔
      ∀ t < horizon, ∀ s < m.stateCount, m.Worthwhile γ (v t) s := by
  rw [Policy.validate_iff]
  constructor
  · rintro ⟨_, checked⟩ t below
    refine (decides t below).checkStage_iff.mp (checked _ (List.mem_map_of_mem ?_))
    rw [Array.toList_ofFn, List.mem_ofFn]
    exact ⟨⟨t, below⟩, rfl⟩
  · refine fun worth => ⟨fun _ k known => ?_, fun rule listed => ?_⟩
    · rw [Policy.length?, Array.size_ofFn] at known
      exact (Option.some.inj known).le
    · obtain ⟨_, member, rfl⟩ := List.mem_map.mp listed
      rw [Array.toList_ofFn, List.mem_ofFn] at member
      obtain ⟨t, rfl⟩ := member
      exact (decides t t.isLt).checkStage_iff.mpr (worth t t.isLt)

end Validation

section Exact

open FixpointIteration

variable {n : Nat} {K : Type} [Field K] [LinearOrder K] [FloorRing K] {m : Model (Extended K)} {P : Process n K} {γ : K}

theorem Model.sweeps_exact (described : m.Describes P) (u : Fin n → K) (k : Nat) :
    sweeps m (.infinite (.finite γ)) none (exactVector u) k = .ok (exactVector ((P.bellman γ)^[k] u)) := by
  induction k with
  | zero => rfl
  | succ k ih =>
    have swept : m.bellman (.objective (.infinite (.finite γ))) (exactVector ((P.bellman γ)^[k] u)) .serial = .ok _ :=
      bellman_exact described rfl rfl _
    rw [sweeps_next ih, step, swept, Function.iterate_succ_apply']
    rfl

theorem Model.worthwhile_exact (described : m.Describes P) (u : Fin n → K) :
    ∀ s < m.stateCount, m.Worthwhile (.finite γ) (exactVector u) s := by
  intro s inside
  rw [described.states] at inside
  obtain ⟨ts, known, reads⟩ := described.outcomes ⟨s, inside⟩ ⟨0, P.hasAction _⟩
  exact ⟨_, described.actions ⟨s, inside⟩, 0, P.hasAction _, ts, _, known, backup_exact reads γ u, rfl⟩

end Exact

section Returned

open FixpointIteration

section Runs

variable {K : Type} [Field K] [LinearOrder K] [FloorRing K] {m : Model (Extended K)} (listed : m.Listed)
  (acts : ∀ s < m.stateCount, m.actionCount (s : Nat) ≠ .ok 0) (columnar : m.Columnar) {γ : Extended K}
  {settings : Settings (Extended K)}

include listed acts columnar

theorem Model.stages_decide {horizon : Nat} {terminal : Option (TerminalValue (Extended K))}
    {last : Array (Extended K)}
    (room : Tensor.fits settings.capacity [horizon + 1, m.stateCount] = true)
    (ended : (terminal.getD .zero).vector m.stateCount = .ok last) (whole : last.size = m.stateCount)
    (printable : (settings.verbose && settings.lineLength.isNone) = false) (j : Journal (Extended K)) :
    ∃ result j', ∃ values : Nat → Array (Extended K), ∃ decisions : Nat → Array Int,
      (valueIteration m (.finite γ horizon) none terminal settings).runOn j = (.ok result, j') ∧
      result.value = .staged (Array.ofFn fun t : Fin (horizon + 1) => values (horizon - t)) ∧
      result.policy = some (.markov (Array.ofFn fun t : Fin horizon => decisions t)) ∧
      (∀ k, sweeps m (.infinite γ) none last k = .ok (values k)) ∧
      ∀ t < horizon, m.Decides γ (values (horizon - (t + 1))) (decisions t) := by
  obtain ⟨result, j', values, passes, ran, value, policy, each⟩ :=
    finiteHorizon_sweeps listed room ended whole printable acts columnar j
  have known : (Goal.objective (.infinite γ)).discount = .ok γ := rfl
  exact ⟨result, j', values, fun t => (passes (horizon - (t + 1))).actions, ran, value, policy, fun k => (each k).1,
    fun t _ => Model.bellman_decides listed acts columnar known (each _).2.1 (each _).2.2⟩

theorem Model.sweeps_decide {result : ValueIterationResult (Extended K)} {j j' : Journal (Extended K)}
    (ran : (valueIteration m (.infinite γ) none none settings).runOn j = (.ok result, j')) :
    ∃ v actions, result.value = .stationary v ∧ result.policy = some (.stationary actions) ∧
      sweeps m (.infinite γ) none (Array.replicate m.stateCount Scalar.zero) result.iterations = .ok v ∧
      m.Decides γ v actions := by
  obtain ⟨_, _, read, _, ran⟩ := valueIteration_parts ran
  cases read
  obtain ⟨v, reached, value, greedy⟩ := run_sweeps ran
  obtain ⟨b, swept, policy⟩ := greedy rfl
  have known : (Goal.objective (.infinite γ)).discount = .ok γ := rfl
  obtain ⟨v', reached', size⟩ := sweeps_optimal listed known Array.size_replicate result.iterations acts columnar
  obtain rfl := Except.ok.inj (reached'.symm.trans reached)
  exact ⟨v', b.actions, value, policy, reached, Model.bellman_decides listed acts columnar known size swept⟩

end Runs

variable {K : Type} [Field K] [LinearOrder K] [FloorRing K]

-- The policy that is returned, over finitely many stages and over infinitely many, and when it is valid.
theorem returned_policy_valid_iff {tolerance : Extended K}
    {given : List (Outcome (Extended K) (List (Outcome (Extended K) (ActionArrays (Extended K)))))}
    {f : FlatModel (Extended K)} (shaped : ∀ row, .ok row ∈ given → ∀ c, .ok c ∈ row → c.WellShaped)
    (built : FlatModel.build tolerance given = .ok f) (γ : Extended K) :
    (∀ {horizon : Nat} {terminal : Option (TerminalValue (Extended K))} {last : Array (Extended K)}
      {settings : Settings (Extended K)}, Tensor.fits settings.capacity [horizon + 1, f.stateCount] = true →
      (terminal.getD .zero).vector f.stateCount = .ok last → last.size = f.stateCount →
      (settings.verbose && settings.lineLength.isNone) = false → ∀ j, ∃ result j' rows decisions,
        (valueIteration (.flat f) (.finite γ horizon) none terminal settings).runOn j = (.ok result, j') ∧
        result.value = .staged rows ∧ result.policy = some (.markov decisions) ∧ decisions.size = horizon ∧
        (∀ t < horizon, ∃ v actions, rows[t + 1]? = some v ∧ decisions[t]? = some actions ∧
          (Model.flat f).Decides γ v actions) ∧
        ((Policy.markov decisions).validate (.flat f) (some (.int horizon)) = .ok () ↔
          ∀ t < horizon, ∃ v, rows[t + 1]? = some v ∧ ∀ s < f.stateCount, (Model.flat f).Worthwhile γ v s) ∧
        ((Model.flat f).Exact → (∃ g, γ = .finite g) → (∃ u : Fin f.stateCount → K, last = exactVector u) →
          (Policy.markov decisions).validate (.flat f) (some (.int horizon)) = .ok ())) ∧
    ∀ {settings : Settings (Extended K)} {result : ValueIterationResult (Extended K)} {j j' : Journal (Extended K)},
      (valueIteration (.flat f) (.infinite γ) none none settings).runOn j = (.ok result, j') →
      ∃ v actions, result.value = .stationary v ∧ result.policy = some (.stationary actions) ∧
        (Model.flat f).Decides γ v actions ∧
        ((Policy.stationary actions).validate (.flat f) none = .ok () ↔
          ∀ s < f.stateCount, (Model.flat f).Worthwhile γ v s) ∧
        ((Model.flat f).Exact → (∃ g, γ = .finite g) →
          (Policy.stationary actions).validate (.flat f) none = .ok ()) := by
  have checked := FlatModel.build_checked shaped built
  refine ⟨?_, ?_⟩
  · intro horizon terminal last settings room ended whole printable j
    obtain ⟨result, j', values, decisions, ran, value, policy, reached, decides⟩ :=
      Model.stages_decide checked.listed checked.acts checked.covers room ended whole printable j
    have row {t : Nat} (below : t < horizon) : (Array.ofFn fun t : Fin (horizon + 1) => values (horizon - t))[t + 1]?
        = some (values (horizon - (t + 1))) := ofFn_getElem? (fun t => values (horizon - t)) (by omega)
    have valid := Model.Decides.validate_stages decides
    refine ⟨result, j', _, _, ran, value, policy, Array.size_ofFn,
      fun t below => ⟨_, _, row below, ofFn_getElem? decisions below, decides t below⟩, valid.trans ?_, ?_⟩
    · refine forall₂_congr fun t below => ⟨fun worth => ⟨_, row below, worth⟩, fun ⟨v, found, worth⟩ => ?_⟩
      obtain rfl := Option.some.inj (found.symm.trans (row below))
      exact worth
    · rintro exact ⟨g, rfl⟩ ⟨u, rfl⟩
      obtain ⟨P, described⟩ := checked.describes exact
      refine valid.mpr fun t below => ?_
      rw [Except.ok.inj ((reached _).symm.trans (Model.sweeps_exact described u _))]
      exact Model.worthwhile_exact described _
  · intro settings result j j' ran
    obtain ⟨v, actions, value, policy, reached, decides⟩ :=
      Model.sweeps_decide checked.listed checked.acts checked.covers ran
    refine ⟨v, actions, value, policy, decides, decides.validate_iff, ?_⟩
    rintro exact ⟨g, rfl⟩
    obtain ⟨P, described⟩ := checked.describes exact
    have zeros : Array.replicate f.stateCount Scalar.zero = exactVector (0 : Fin f.stateCount → K) :=
      exactVector_zero _
    change sweeps _ _ _ (Array.replicate f.stateCount Scalar.zero) _ = _ at reached
    rw [zeros] at reached
    obtain rfl := Except.ok.inj (reached.symm.trans (Model.sweeps_exact described 0 _))
    exact decides.validate_iff.mpr (Model.worthwhile_exact described _)

end Returned

theorem returned_policy_valid_iff_ragged :
    ∃ f, FlatModel.ofListings (.finite (1 / 10 ^ 6)) (Listing.ragged.map (List.map Listing.exact)) = .ok f ∧
    (∃ result j decisions, (valueIteration (.flat f) (.finite (.finite 1) 2) none none
        (.quiet 10 1 0)).runOn Journal.empty = (.ok result, j) ∧
      result.policy = some (.markov decisions) ∧
      (Policy.markov decisions).validate (.flat f) (some (.int 2)) = .ok ()) ∧
    ∃ result j actions, (valueIteration (.flat f) (.infinite (.finite (1 / 2))) none none
        (.quiet 10 1 0)).runOn Journal.empty = (.ok result, j) ∧
      result.policy = some (.stationary actions) ∧ (Policy.stationary actions).validate (.flat f) none = .ok () := by
  have made := FlatModel.ofListings_exact.mpr ⟨Listing.ragged_distributes, rfl⟩
  have exact := FlatModel.listings_numbers made
  obtain ⟨staged, _⟩ := returned_policy_valid_iff FlatModel.listings_shaped made (.finite 1)
  obtain ⟨_, stationary⟩ := returned_policy_valid_iff FlatModel.listings_shaped made (.finite (1 / 2))
  refine ⟨_, made, ?_, ?_⟩
  · have room : Tensor.fits (Settings.quiet 10 1 0 : Settings (Extended ℚ)).capacity [2 + 1, 2] = true := by decide
    have ended : ((none : Option (TerminalValue (Extended ℚ))).getD .zero).vector 2
        = .ok (Array.replicate 2 Scalar.zero) := rfl
    have printable : ((Settings.quiet 10 1 0 : Settings (Extended ℚ)).verbose &&
      (Settings.quiet 10 1 0 : Settings (Extended ℚ)).lineLength.isNone) = false := rfl
    obtain ⟨result, j, _, decisions, ran, _, policy, _, _, _, valid⟩ :=
      staged room ended Array.size_replicate printable Journal.empty
    exact ⟨result, j, decisions, ran, policy, valid exact ⟨1, rfl⟩ ⟨0, exactVector_zero 2⟩⟩
  · have ends : (valueIteration (.flat (FlatModel.laid (Listing.ragged.map (List.map Listing.columns))))
        (.infinite (.finite (1 / 2))) none none (.quiet 10 1 0)).returns Journal.empty (fun _ => true) = true := by
      decide +kernel
    obtain ⟨result, j, ran, _⟩ := InPlace.runOn_of_returns ends
    obtain ⟨_, actions, _, policy, _, _, valid⟩ := stationary ran
    exact ⟨result, j, actions, ran, policy, valid exact ⟨1 / 2, rfl⟩⟩

def Listing.ruinous : List (List (Listing (Extended ℚ))) := [[⟨[.whole 0], [.whole 1], [.real (.infinite true)]⟩]]

def Columns.ruinous : Columns (Extended ℚ) := ⟨[0], [Scalar.ofInt 1], [.infinite true]⟩

-- A state that is left and entered again at an infinite loss: the model is accepted, and what value
-- iteration returns for it names no action at all.
theorem ruined_policy_invalid :
    ∃ f result j, FlatModel.ofListings FlatModel.defaultTolerance Listing.ruinous = .ok f ∧
      (valueIteration (.flat f) (.finite (.finite (1 / 2)) 1) none none (.quiet 10 1 0)).runOn Journal.empty
        = (.ok result, j) ∧
      result.policy = some (.markov #[#[-1]]) ∧
      (Policy.markov #[#[-1]]).validate (.flat f) (some (.int 1)) = .error (.actionNotValid (-1) 0) := by
  have fits : Columns.ruinous.Fits 1 FlatModel.defaultTolerance := by
    refine ⟨⟨rfl, rfl⟩, List.cons_ne_nil 0 [], List.forall_mem_singleton.mpr ⟨le_rfl, Int.one_pos⟩,
      List.forall_mem_singleton.mpr ?_, ?_⟩
    · decide +kernel
    · unfold Columns.Balanced
      decide +kernel
  have takes : FlatModel.Takes FlatModel.defaultTolerance Listing.ruinous [[Columns.ruinous]] :=
    ⟨List.cons_ne_nil _ _, .cons ⟨List.cons_ne_nil _ _, .cons ⟨rfl, fits⟩ .nil⟩ .nil⟩
  exact ⟨FlatModel.laid [[Columns.ruinous]], _, _, takes.ofListings, rfl, rfl, rfl⟩

end MarkovDecision
