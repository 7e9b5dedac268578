import MarkovDecision.Policy.Validation
import MarkovDecision.Proofs.ExactSums
import MarkovDecision.Proofs.Process.Discounted
import MarkovDecision.Proofs.Representation
import MarkovDecision.Proofs.Sweep
import MarkovDecision.RewardProcess

namespace MarkovDecision

variable {n : Nat} {K : Type} [Field K]

namespace Policy

def rule (p : Policy (Extended K)) (P : Process n K) : P.Rule := fun s a =>
  match p with
  | .stationary actions => if actions[(s : Nat)]? = some ((a : Nat) : Int) then 1 else 0
  | .randomized states =>
    match states[(s : Nat)]? with
    | some (.perAction ps) => (ps[(a : Nat)]?.getD (.finite 0)).real
    | _ => 0
  | _ => 0

def SumsToOne : Policy (Extended K) → Prop
  | .randomized states => ∀ w ∈ states, ∃ ps : List K, w = .perAction (ps.map .finite) ∧ ps.sum = 1
  | _ => True

def ExactWeights : Policy (Extended K) → Prop
  | .randomized states => ∀ w ∈ states, ∃ ps : List K, w = .perAction (ps.map .finite)
  | _ => True

theorem SumsToOne.weights {p : Policy (Extended K)} (exact : p.SumsToOne) : p.ExactWeights := by
  cases p with
  | randomized states =>
    intro w member
    obtain ⟨ps, listed, _⟩ := exact w member
    exact ⟨ps, listed⟩
  | _ => exact trivial

theorem rule_stationary (P : Process n K) (d : P.Selection) :
    (Policy.stationary (P.actionArray d)).rule P = P.sure d := by
  funext s a
  have cell : (P.actionArray d)[(s : Nat)]? = some ((d s : Nat) : Int) := by simp [Process.actionArray]
  simp only [rule, cell, Process.sure]
  by_cases same : a = d s
  · rw [same, if_pos rfl, Pi.single_eq_same]
  · have other : some ((d s : Nat) : Int) ≠ some ((a : Nat) : Int) := by
      intro equal
      exact same (Fin.ext (by simpa using equal.symm))
    rw [if_neg other, Pi.single_eq_of_ne same]

end Policy

theorem weighted_sum (ps : List K) : ∀ (q : Nat → K) (count : Nat), ps.length ≤ count →
    (ps.zipIdx.map fun (p, a) => p * q a).sum = ∑ a : Fin count, ps.getD a 0 * q a := by
  induction ps with
  | nil => intro q count _; simp
  | cons p rest ih =>
    intro q count covered
    obtain ⟨count, rfl⟩ := Nat.exists_eq_succ_of_ne_zero (by
      rw [List.length_cons] at covered
      omega : count ≠ 0)
    rw [Fin.sum_univ_succ, List.zipIdx_cons', List.map_cons, List.sum_cons, List.map_map]
    have shifted := ih (fun a => q (a + 1)) count (Nat.le_of_succ_le_succ covered)
    exact congrArg (p * q 0 + ·) shifted

theorem sum_weights (ps : List K) {count : Nat} (covered : ps.length ≤ count) :
    ∑ a : Fin count, ps.getD a 0 = ps.sum := by
  have whole := weighted_sum ps (fun _ => 1) count covered
  simp only [mul_one] at whole
  exact whole.symm.trans (congrArg List.sum (List.zipIdx_map_fst 0 ps))

variable [LinearOrder K]

structure Weights.Fits (w : Weights (Extended K)) (ps : List K) (count : Nat) : Prop where
  listed : w = .perAction (ps.map .finite)
  covered : ps.length ≤ count
  nonneg : ∀ p ∈ ps, 0 ≤ p

theorem sum_positive (q : Nat → K) (xs : List (K × Nat)) (nonneg : ∀ x ∈ xs, 0 ≤ x.1) :
    ((xs.filter fun x => decide (0 < x.1)).map fun x => x.1 * q x.2).sum
      = (xs.map fun x => x.1 * q x.2).sum := by
  induction xs with
  | nil => rfl
  | cons x rest ih =>
    have later := ih fun y member => nonneg y (List.mem_cons_of_mem x member)
    rcases (nonneg x List.mem_cons_self).eq_or_lt with zero | positive
    · rw [List.filter_cons_of_neg (by simp [← zero]), later, List.map_cons, List.sum_cons, ← zero,
        zero_mul, zero_add]
    · rw [List.filter_cons_of_pos (by simpa using positive), List.map_cons, List.map_cons,
        List.sum_cons, List.sum_cons, later]

theorem rule_randomized {P : Process n K} {states : Array (Weights (Extended K))} {s : Fin n}
    {w : Weights (Extended K)} {ps : List K} (place : states[(s : Nat)]? = some w)
    (fits : w.Fits ps (P.actionCount s)) (a : Fin (P.actionCount s)) :
    (Policy.randomized states).rule P s a = ps.getD a 0 := by
  simp only [Policy.rule, place, fits.listed, List.getElem?_map, List.getD_eq_getElem?_getD]
  cases ps[(a : Nat)]? <;> rfl

section Acceptance

variable {α : Type} [Scalar α] {m : Model α} {given : PolicyData α} {p : Policy α}

theorem PolicyData.validate_ok {horizon : Option Literal} :
    given.validate m horizon = .ok p ↔ given.resolve = .ok p ∧ p.validate m horizon = .ok () := by
  rw [PolicyData.validate]
  constructor
  · intro checked
    obtain ⟨q, resolved, checked⟩ := Outcome.bind_ok.mp checked
    obtain ⟨_, valid, same⟩ := Outcome.bind_ok.mp checked
    cases same
    exact ⟨resolved, valid⟩
  · rintro ⟨resolved, valid⟩
    rw [resolved, Outcome.ok_bind, valid]
    rfl

theorem stationaryPolicy_ok : stationaryPolicy m given = .ok p ↔
    given.resolve = .ok p ∧ p.validate m none = .ok () ∧ p.isStationary = true := by
  rw [← and_assoc, ← PolicyData.validate_ok, stationaryPolicy]
  constructor
  · intro accepted
    obtain ⟨q, validated, accepted⟩ := Outcome.bind_ok.mp accepted
    obtain ⟨stationary, same⟩ := Outcome.unless_ok.mp accepted
    cases same
    exact ⟨validated, by simpa using stationary⟩
  · rintro ⟨validated, stationary⟩
    rw [validated, Outcome.ok_bind, stationary]
    rfl

end Acceptance

section Validation

variable [FloorRing K] {m : Model (Extended K)} {P : Process n K}

theorem Policy.validate_checked {α : Type} [Scalar α] {m : Model α} {p : Policy α}
    (stationary : p.isStationary = true) (checked : checkStage m p = .ok ()) : p.validate m none = .ok () := by
  have only : p.stages = [p] := by
    cases p with
    | markov => cases stationary
    | markovRandomized => cases stationary
    | _ => rfl
  have all : p.stages.forM (Policy.checkStage m) = .ok () := by
    rw [only]
    exact Outcome.forM_ok.mpr fun q member => by rwa [List.mem_singleton.mp member]
  unfold Policy.validate
  rw [stationary]
  exact all

theorem Policy.valid_rule {α : Type} [Scalar α] {m : Model α} {p : Policy α}
    (valid : p.validate m none = .ok ()) (stationary : p.isStationary = true) :
    (∃ actions, p = .stationary actions ∧ actions.size = m.stateCount ∧
      ∀ s < m.stateCount, checkAction m actions s = .ok ()) ∨
    ∃ states, p = .randomized states ∧ states.size = m.stateCount ∧
      ∀ s < m.stateCount, checkWeights m states s = .ok () := by
  have only (q : Policy α) (checked : [q].forM (checkStage m) = .ok ()) : checkStage m q = .ok () :=
    Outcome.forM_ok.mp checked q (List.mem_singleton_self q)
  cases p with
  | stationary actions =>
    obtain ⟨covered, known, stage⟩ := Outcome.bind_ok.mp (only _ valid)
    cases known
    obtain ⟨size, each⟩ := Outcome.unless_ok.mp stage
    exact Or.inl ⟨actions, rfl, by simpa using size,
      fun s inside => Outcome.forM_ok.mp each s (List.mem_range.mpr inside)⟩
  | randomized states =>
    obtain ⟨covered, known, stage⟩ := Outcome.bind_ok.mp (only _ valid)
    cases known
    obtain ⟨size, each⟩ := Outcome.unless_ok.mp stage
    exact Or.inr ⟨states, rfl, by simpa using size,
      fun s inside => Outcome.forM_ok.mp each s (List.mem_range.mpr inside)⟩
  | markov stages => cases stationary
  | markovRandomized stages => cases stationary
  | bare => cases only _ valid

theorem Policy.checkAction_ok {α : Type} [Scalar α] {m : Model α} {actions : Array Int} {s k : Nat}
    (count : m.actionCount (s : Nat) = .ok (k : Int)) (checked : checkAction m actions s = .ok ()) :
    ∃ a < k, actions[s]? = some (a : Int) := by
  unfold checkAction at checked
  rw [count, Outcome.ok_bind] at checked
  obtain ⟨a, found, checked⟩ := Outcome.bind_ok.mp checked
  split at checked
  · cases checked
  · rename_i inside
    simp only [Bool.or_eq_true, decide_eq_true_eq, not_or, not_lt, not_le] at inside
    exact ⟨a.toNat, by omega, by rw [entry_ok.mp found]; simp [inside.1]⟩

theorem Policy.checkWeights_ok {α : Type} [Scalar α] {m : Model α} {states : Array (Weights α)} {s k : Nat}
    (count : m.actionCount (s : Nat) = .ok (k : Int)) (checked : checkWeights m states s = .ok ()) :
    ∃ w length, states[s]? = some w ∧ w.tensor.length? = some length ∧ length ≤ k ∧
      (∀ p ∈ w.cells, Scalar.lt p Scalar.zero = false) ∧ Scalar.isNearlyOne (Scalar.arraySum w.cells) = true := by
  unfold checkWeights at checked
  rw [count, Outcome.ok_bind] at checked
  obtain ⟨w, found, checked⟩ := Outcome.bind_ok.mp checked
  obtain ⟨length, known, checked⟩ := Outcome.bind_ok.mp checked
  split at checked
  · cases checked
  · rename_i passed
    simp only [Bool.or_eq_true, not_or, decide_eq_true_eq, not_lt, List.any_eq_true, not_exists, not_and,
      Bool.not_eq_true, Bool.not_eq_eq_eq_not, Bool.not_true, Bool.not_eq_false] at passed
    exact ⟨w, length, entry_ok.mp found, Outcome.ofOption_ok.mp known, by omega, passed.1.2, passed.2⟩

section Choices

variable {α : Type} [Scalar α]

def Policy.Takes (p : Policy α) (s : Nat) (a : Int) : Prop :=
  match p with
  | .stationary actions => actions[s]? = some a
  | .randomized states => ∃ ps x, ∃ i : Nat, states[s]? = some (.perAction ps) ∧ a = i ∧ ps[i]? = some x ∧
      Scalar.lt Scalar.zero x = true
  | _ => False

def Policy.Readable (p : Policy α) (s : Nat) : Prop :=
  match p with
  | .randomized states => ∃ ps, states[s]? = some (.perAction ps)
  | _ => True

-- The choices of a state are the actions taken there, and all of them exist.
structure Policy.Chooses (p : Policy α) (s k : Nat) (choices : List (Int × α)) : Prop where
  listed : p.distribution (s : Nat) 0 = .ok choices
  taken : ∀ a, (∃ weight, (a, weight) ∈ choices) ↔ p.Takes s a
  valid : ∀ c ∈ choices, ∃ a < k, c.1 = ((a : Nat) : Int)

theorem Weights.mem_distribution {ps : List α} {choices : List (Int × α)}
    (listed : (Weights.perAction ps).distribution = .ok choices) (c : Int × α) :
    c ∈ choices ↔ ∃ i : Nat, c.1 = i ∧ ps[i]? = some c.2 ∧ Scalar.lt Scalar.zero c.2 = true := by
  cases listed
  rw [List.mem_map]
  constructor
  · rintro ⟨⟨x, i⟩, member, rfl⟩
    obtain ⟨member, positive⟩ := List.mem_filter.mp member
    exact ⟨i, rfl, List.mem_zipIdx_iff_getElem?.mp member, positive⟩
  · rintro ⟨i, place, found, positive⟩
    exact ⟨(c.2, i), List.mem_filter.mpr ⟨List.mem_zipIdx_iff_getElem?.mpr found, positive⟩,
      Prod.ext place.symm rfl⟩

theorem Policy.chooses {m : Model α} {p : Policy α} {s k : Nat} (valid : p.validate m none = .ok ())
    (stationary : p.isStationary = true) (inside : s < m.stateCount) (count : m.actionCount (s : Nat) = .ok (k : Int)) :
    (p.Readable s ∧ ∃ choices, p.Chooses s k choices) ∨
      (¬p.Readable s ∧ p.distribution (s : Nat) 0 = .error .invalidInput) := by
  rcases valid_rule valid stationary with ⟨actions, rfl, _, each⟩ | ⟨states, rfl, _, each⟩
  · obtain ⟨a, below, found⟩ := checkAction_ok count (each s inside)
    refine Or.inl ⟨trivial, [((a : Nat), Scalar.one)], ?_, fun b => ?_, ?_⟩
    · rw [distribution, distribution?, entry_ok.mpr found]
      rfl
    · simp [Takes, found, eq_comm]
    · exact List.forall_mem_singleton.mpr ⟨a, below, rfl⟩
  · obtain ⟨w, length, place, known, covered, _⟩ := checkWeights_ok count (each s inside)
    cases w with
    | other t =>
      refine Or.inr ⟨fun ⟨ps, found⟩ => ?_, ?_⟩
      · rw [place] at found
        cases found
      · rw [distribution, distribution?, entry_ok.mpr place]
        rfl
    | perAction ps =>
      have size : ps.length = length := by simpa [Weights.tensor, Tensor.ofVector, Tensor.length?] using known
      obtain ⟨choices, listed⟩ : ∃ choices, (Weights.perAction ps).distribution = .ok choices := ⟨_, rfl⟩
      refine Or.inl ⟨⟨ps, place⟩, choices, ?_, fun a => ?_, fun c member => ?_⟩
      · rw [distribution, distribution?, entry_ok.mpr place, Outcome.ok_bind, listed]
        rfl
      · constructor
        · rintro ⟨x, member⟩
          obtain ⟨i, same, found, positive⟩ := (Weights.mem_distribution listed _).mp member
          exact ⟨ps, x, i, place, same, found, positive⟩
        · rintro ⟨_, x, i, there, same, found, positive⟩
          rw [place] at there
          cases there
          exact ⟨x, (Weights.mem_distribution listed _).mpr ⟨i, same, found, positive⟩⟩
      · obtain ⟨i, same, found, _⟩ := (Weights.mem_distribution listed c).mp member
        obtain ⟨below, _⟩ := List.getElem?_eq_some_iff.mp found
        exact ⟨i, by omega, same⟩

end Choices

theorem valid_stationary (described : m.Describes P) {actions : Array Int}
    (valid : (Policy.stationary actions).validate m none = .ok ()) :
    ∃ d : P.Selection, actions = P.actionArray d := by
  rcases Policy.valid_rule valid rfl with ⟨_, same, size, each⟩ | ⟨_, same, _⟩
  · cases same
    rw [described.states] at size each
    have choice (s : Fin n) : ∃ a : Fin (P.actionCount s), actions[(s : Nat)]? = some ((a : Nat) : Int) := by
      obtain ⟨a, below, found⟩ := Policy.checkAction_ok (described.actions s) (each s s.isLt)
      exact ⟨⟨a, below⟩, found⟩
    choose d known using choice
    refine ⟨d, Array.ext_getElem? fun i => ?_⟩
    by_cases inside : i < n
    · rw [known ⟨i, inside⟩]
      simp [Process.actionArray, inside]
    · rw [Array.getElem?_eq_none (by omega), Array.getElem?_eq_none (by rw [actionArray_size]; omega)]
  · cases same

theorem actionArray_checked (described : m.Describes P) (d : P.Selection) :
    Policy.checkStage m (.stationary (P.actionArray d)) = .ok () := by
  obtain rfl := described.states
  have each : (List.range m.stateCount).forM (Policy.checkAction m (P.actionArray d)) = .ok () := by
    refine Outcome.forM_ok.mpr fun s member => ?_
    have inside := List.mem_range.mp member
    have bounds := (d ⟨s, inside⟩).isLt
    have found : entry (α := Extended K) (P.actionArray d) (s : Int)
        = .ok ((d ⟨s, inside⟩ : Nat) : Int) := entry_ofFn _ (⟨s, inside⟩ : Fin m.stateCount)
    have count := described.actions ⟨s, inside⟩
    dsimp only at count
    rw [Policy.checkAction, count, Outcome.ok_bind, found, Outcome.ok_bind, if_neg]
    · rfl
    · simp only [Bool.or_eq_true, decide_eq_true_eq, not_or, not_lt, not_le]
      omega
  unfold Policy.checkStage
  simp only [Policy.length?, Outcome.ofOption_some, Outcome.ok_bind, actionArray_size, bne_self_eq_false]
  exact each

theorem actionArray_valid (described : m.Describes P) (d : P.Selection) :
    (Policy.stationary (P.actionArray d)).validate m none = .ok () :=
  Policy.validate_checked rfl (actionArray_checked described d)

theorem valid_randomized (described : m.Describes P) {states : Array (Weights (Extended K))}
    (valid : (Policy.randomized states).validate m none = .ok ())
    (weighted : (Policy.randomized states).ExactWeights) (s : Fin n) :
    ∃ w ps, states[(s : Nat)]? = some w ∧ w.Fits ps (P.actionCount s) := by
  rcases Policy.valid_rule valid rfl with ⟨_, same, _⟩ | ⟨_, same, _, each⟩
  · cases same
  · cases same
    rw [described.states] at each
    obtain ⟨w, length, place, known, covered, nonneg, _⟩ :=
      Policy.checkWeights_ok (described.actions s) (each s s.isLt)
    obtain ⟨ps, listed⟩ := weighted w (Array.mem_of_getElem? place)
    rw [listed] at known nonneg
    have known : ps.length = length := by
      simpa [Weights.tensor, Tensor.ofVector, Tensor.length?] using known
    refine ⟨w, ps, place, listed, by omega, fun p member => ?_⟩
    have tested := nonneg (.finite p) (by simpa [Weights.cells, Weights.tensor, Tensor.ofVector] using member)
    simpa using tested

theorem exactWeights_of_valid (described : m.Describes P) {p : Policy (Extended K)} (valid : p.validate m none = .ok ())
    (stationary : p.isStationary = true) (readable : ∀ s < n, p.Readable s) : p.ExactWeights := by
  rcases Policy.valid_rule valid stationary with ⟨actions, rfl, _⟩ | ⟨states, rfl, size, each⟩
  · exact trivial
  · rw [described.states] at size each
    intro w member
    obtain ⟨s, place⟩ := Array.mem_iff_getElem?.mp member
    obtain ⟨inside, _⟩ := Array.getElem?_eq_some_iff.mp place
    rw [size] at inside
    obtain ⟨_, _, found, _, _, _, near⟩ := Policy.checkWeights_ok (described.actions ⟨s, inside⟩) (each s inside)
    obtain ⟨ps, listed⟩ := readable s inside
    rw [place] at found listed
    cases found
    cases listed
    obtain ⟨total, sum⟩ := Extended.finite_of_isNearlyOne near
    rw [Extended.arraySum_sum] at sum
    obtain ⟨ks, same⟩ := Extended.finite_of_sum sum
    have cells : (Weights.perAction ps).cells = ps := by simp [Weights.cells, Weights.tensor, Tensor.ofVector]
    exact ⟨ks, congrArg Weights.perAction (cells.symm.trans same)⟩

theorem valid_cases (described : m.Describes P) {p : Policy (Extended K)}
    (valid : p.validate m none = .ok ()) (stationary : p.isStationary = true) :
    (∃ d : P.Selection, p = .stationary (P.actionArray d)) ∨ ∃ states, p = .randomized states := by
  rcases Policy.valid_rule valid stationary with ⟨actions, rfl, _⟩ | ⟨states, rfl, _⟩
  · obtain ⟨d, same⟩ := valid_stationary described valid
    exact Or.inl ⟨d, congrArg Policy.stationary same⟩
  · exact Or.inr ⟨states, rfl⟩

end Validation

section Following

variable [FloorRing K] {m : Model (Extended K)} {P : Process n K} {γ : K}
  {p : Policy (Extended K)}

theorem Weights.distribution_finite (ps : List K) : (Weights.perAction (ps.map Extended.finite)).distribution
    = .ok ((ps.zipIdx.filter fun x => decide (0 < x.1)).map fun x => ((x.2 : Int), .finite x.1)) := by
  have positive : (fun x : Extended K × Nat => Scalar.lt Scalar.zero x.1) ∘ Prod.map Extended.finite id
      = fun x : K × Nat => decide (0 < x.1) := by
    funext x
    rw [Extended.zero_eq]
    rfl
  rw [Weights.distribution, List.zipIdx_map, List.filter_map, List.map_map, positive]
  rfl

-- The choices of a valid policy are actions of the state, and adding up over them is adding up over
-- all actions by the rule.
theorem distribution_exact (described : m.Describes P) (valid : p.validate m none = .ok ())
    (stationary : p.isStationary = true) (weighted : p.ExactWeights) (s : Fin n) (t : Int) :
    ∃ choices : List (Fin (P.actionCount s) × K),
      p.distribution (s : Nat) t = .ok (choices.map fun c => (((c.1 : Nat) : Int), .finite c.2)) ∧
      ∀ f : Fin (P.actionCount s) → K, (choices.map fun c => c.2 * f c.1).sum
        = ∑ a, p.rule P s a * f a := by
  rcases valid_cases described valid stationary with ⟨d, rfl⟩ | ⟨states, rfl⟩
  · refine ⟨[(d s, 1)], ?_, fun f => ?_⟩
    · simp only [Policy.distribution, Policy.distribution?, Process.actionArray, entry_ofFn,
        Outcome.ok_bind, Outcome.pure_eq, Extended.one_eq, List.map_cons, List.map_nil]
    · rw [Policy.rule_stationary, Finset.sum_eq_single (d s) _ fun out => absurd (Finset.mem_univ _) out]
      · simp [Process.sure]
      · intro a _ other
        rw [Process.sure, Pi.single_eq_of_ne other, zero_mul]
  · obtain ⟨w, ps, place, fits⟩ := valid_randomized described valid weighted s
    -- the positive weights, each with its action
    let listed := ps.zipIdx.filter fun x => decide (0 < x.1)
    have inside : ∀ x ∈ listed, x.2 < P.actionCount s := by
      intro x member
      obtain ⟨below, _⟩ := List.getElem?_eq_some_iff.mp
        (List.mem_zipIdx_iff_getElem?.mp (List.mem_of_mem_filter member))
      exact below.trans_le fits.covered
    refine ⟨listed.pmap (fun x within => (⟨x.2, within⟩, x.1)) inside, ?_, fun f => ?_⟩
    · simp only [Policy.distribution, Policy.distribution?, entry_ok.mpr place, fits.listed,
        Weights.distribution_finite, Outcome.ok_bind, Outcome.pure_eq, List.map_pmap, List.pmap_eq_map]
      rfl
    · have weighted : listed.pmap (fun x within => x.1 * f ⟨x.2, within⟩) inside
          = listed.map fun x => x.1 * padded f x.2 := by
        rw [← List.pmap_eq_map (H := fun _ _ => trivial) (p := fun _ => True)]
        exact List.pmap_congr_left _ fun x _ within _ => congrArg (x.1 * ·) (padded_fin f ⟨x.2, within⟩).symm
      rw [List.map_pmap, weighted, sum_positive (padded f) _ fun x member =>
        fits.nonneg x.1 (List.fst_mem_of_mem_zipIdx member), weighted_sum ps _ _ fits.covered]
      refine Finset.sum_congr rfl fun a _ => ?_
      rw [rule_randomized place fits, padded_fin]

theorem policyValue_exact (described : m.Describes P) (valid : p.validate m none = .ok ())
    (stationary : p.isStationary = true) (weighted : p.ExactWeights) {goal : Goal (Extended K)}
    (discount : goal.discount = .ok (.finite γ)) (t : Int) (v : Fin n → K) (s : Fin n) :
    m.policyValue goal t (s : Nat) p (Reader.ofArray (exactVector v))
      = .ok (.finite (P.follow γ (p.rule P) v s)) := by
  obtain ⟨choices, listed, total⟩ := distribution_exact described valid stationary weighted s t
  have added : ∀ (cs : List (Fin (P.actionCount s) × K)) (start : K),
      (cs.map fun c => (((c.1 : Nat) : Int), (.finite c.2 : Extended K))).foldlM
        (fun total x => do
          return total + x.2 * (← m.actionValue goal (s : Nat) x.1 (Reader.ofArray (exactVector v))))
        (Extended.finite start)
      = (.ok (.finite (start + (cs.map fun c => c.2 * P.actionValue γ v s c.1).sum)) :
        Outcome (Extended K) (Extended K)) := by
    intro cs
    induction cs with
    | nil => intro start; simp
    | cons c cs ih =>
      intro start
      rw [List.map_cons, List.foldlM_cons]
      dsimp only
      rw [actionValue_exact described discount v s c.1]
      simp only [Outcome.ok_bind, Outcome.pure_eq, Extended.finite_mul, Extended.finite_add]
      refine (ih _).trans ?_
      rw [List.map_cons, List.sum_cons, add_assoc]
  rw [Model.policyValue, listed, Outcome.ok_bind, Extended.zero_eq]
  refine (added choices 0).trans ?_
  rw [zero_add, total]
  rfl

theorem rule_distribution [IsStrictOrderedRing K] (described : m.Describes P) (valid : p.validate m none = .ok ())
    (stationary : p.isStationary = true) (exact : p.SumsToOne) : P.IsDistribution (p.rule P) := by
  rcases valid_cases described valid stationary with ⟨d, rfl⟩ | ⟨states, rfl⟩
  · rw [Policy.rule_stationary]
    exact P.sure_distribution d
  · refine ⟨?_, ?_⟩
    · intro s a
      obtain ⟨w, ps, place, fits⟩ := valid_randomized described valid exact.weights s
      rw [rule_randomized place fits, List.getD_eq_getElem?_getD]
      cases cell : ps[(a : Nat)]? with
      | none => exact le_refl _
      | some x => exact fits.nonneg x (List.mem_of_getElem? cell)
    · intro s
      obtain ⟨w, ps, place, fits⟩ := valid_randomized described valid exact.weights s
      have total : ps.sum = 1 := by
        obtain ⟨qs, listed, total⟩ := exact w (Array.mem_of_getElem? place)
        rw [fits.listed] at listed
        have same : ps = qs := List.map_injective_iff.mpr Extended.finite_injective (Weights.perAction.inj listed)
        rw [same, total]
      rw [← total, ← sum_weights ps fits.covered]
      exact Finset.sum_congr rfl fun a _ => rule_randomized place fits a

end Following

end MarkovDecision
