import MarkovDecision.Proofs.StagePolicy

namespace MarkovDecision

def Failure.Refuses {α : Type} (e : Failure α) : Prop := e.kind = .configuration ∨ e.kind = .invalidInput

theorem Failure.Refuses.of_ofOption {α β : Type} {x : Option β} {e : Failure α}
    (unread : Outcome.ofOption x = .error e) : e.Refuses := by
  rw [Outcome.ofOption_error unread]
  exact Or.inr rfl

theorem Failure.Refuses.not_index {α : Type} {e : Failure α} (refuses : e.Refuses) : e.kind ≠ .index := by
  rcases refuses with kind | kind <;> rw [kind] <;> decide

theorem Failure.Refuses.not_structural {α : Type} {e : Failure α} (refuses : e.Refuses) : e.kind ≠ .structural := by
  rcases refuses with kind | kind <;> rw [kind] <;> decide

theorem PolicyData.resolve_refuses {α : Type} {given : PolicyData α} {e : Failure α}
    (refused : given.resolve = .error e) : e.Refuses := by
  have array {t : Tensor Int} {name : String} (refused : ofArray t name = .error e) : e.Refuses := by
    unfold ofArray at refused
    split at refused <;> cases refused
    exact Or.inl rfl
  cases given with
  | policy p => cases refused
  | array cells => exact array refused
  | bare l =>
    rcases Outcome.bind_error.mp refused with unread | ⟨t, _, refused⟩
    · exact .of_ofOption unread
    · split at refused
      · rcases Outcome.bind_error.mp refused with unread | ⟨_, _, refused⟩
        · exact .of_ofOption unread
        · exact array refused
      · cases refused
        exact Or.inl rfl

section Checks

variable {α : Type} {m : Model α} {p : Policy α} {given : PolicyData α} {horizon : Option Int} {e : Failure α}
  {s : Nat} {k : Int}

namespace Policy

theorem checkAction_refuses {actions : Array Int} (count : m.actionCount (s : Nat) = .ok k) (inside : s < actions.size)
    (refused : checkAction m actions s = .error e) : e.Refuses := by
  rw [checkAction, count, Outcome.ok_bind, entry_nat inside, Outcome.ok_bind] at refused
  split at refused <;> cases refused
  exact Or.inl rfl

variable [Scalar α]

theorem checkWeights_refuses {states : Array (Weights α)} (count : m.actionCount (s : Nat) = .ok k)
    (inside : s < states.size) (refused : checkWeights m states s = .error e) : e.Refuses := by
  rw [checkWeights, count, Outcome.ok_bind, entry_nat inside, Outcome.ok_bind] at refused
  rcases Outcome.bind_error.mp refused with unread | ⟨_, _, refused⟩
  · exact .of_ofOption unread
  · split at refused <;> cases refused
    exact Or.inl rfl

section Refusals

variable (counted : ∀ s < m.stateCount, ∃ k : Nat, m.actionCount (s : Nat) = .ok (k : Int))

include counted

theorem checkStage_refuses (refused : checkStage m p = .error e) : e.Refuses := by
  rcases Outcome.bind_error.mp refused with unread | ⟨covered, known, refused⟩
  · exact .of_ofOption unread
  · rcases Outcome.unless_error.mp refused with ⟨_, rfl⟩ | ⟨covers, refused⟩
    · exact Or.inl rfl
    · have length : p.length? = some m.stateCount := by
        rw [Outcome.ofOption_ok.mp known, bne_eq_false_iff_eq.mp covers]
      cases p with
      | stationary actions =>
        obtain ⟨s, member, refused⟩ := Outcome.forM_error refused
        have state := List.mem_range.mp member
        obtain ⟨k, count⟩ := counted s state
        exact checkAction_refuses count (Option.some.inj length ▸ state) refused
      | randomized states =>
        obtain ⟨s, member, refused⟩ := Outcome.forM_error refused
        have state := List.mem_range.mp member
        obtain ⟨k, count⟩ := counted s state
        exact checkWeights_refuses count (Option.some.inj length ▸ state) refused
      | _ =>
        cases refused
        exact Or.inr rfl

theorem validate_refuses (refused : p.validate m (horizon.map .int) = .error e) : e.Refuses := by
  have stages (refused : p.stages.forM (checkStage m) = .error e) : e.Refuses := by
    obtain ⟨q, _, refused⟩ := Outcome.forM_error refused
    exact checkStage_refuses counted refused
  have bounded {short : Bool} {covered : Nat} {given : Literal} (refused : (if short = true then
      (throw (.policyStages covered given) : Outcome α PUnit) >>= fun _ => p.stages.forM (checkStage m)
      else p.stages.forM (checkStage m)) = .error e) : e.Refuses := by
    rcases Outcome.unless_error.mp refused with ⟨_, rfl⟩ | ⟨_, refused⟩
    · exact Or.inl rfl
    · exact stages refused
  cases horizon with
  | none => cases p <;> exact stages refused
  | some T =>
    cases p with
    | markov rules => exact bounded refused
    | markovRandomized rules => exact bounded refused
    | _ => exact stages refused

end Refusals

end Policy

variable [Scalar α] (counted : ∀ s < m.stateCount, ∃ k : Nat, m.actionCount (s : Nat) = .ok (k : Int))

include counted

theorem PolicyData.validate_refuses (refused : given.validate m (horizon.map .int) = .error e) : e.Refuses := by
  rcases Outcome.bind_error.mp refused with unread | ⟨p, _, refused⟩
  · exact resolve_refuses unread
  · rcases Outcome.bind_error.mp refused with invalid | ⟨_, _, done⟩
    · exact Policy.validate_refuses counted invalid
    · cases done

theorem stationaryPolicy_refuses (refused : stationaryPolicy m given = .error e) : e.Refuses := by
  rcases Outcome.bind_error.mp refused with invalid | ⟨p, _, refused⟩
  · have invalid : given.validate m ((none : Option Int).map .int) = .error e := invalid
    exact PolicyData.validate_refuses counted invalid
  · rcases Outcome.unless_error.mp refused with ⟨_, rfl⟩ | ⟨_, done⟩
    · exact Or.inl rfl
    · cases done

theorem stationaryPolicy_failure (refused : stationaryPolicy m given = .error e) : e.kind ≠ .structural :=
  (stationaryPolicy_refuses counted refused).not_structural

end Checks

section Flaws

variable {α : Type} [Scalar α] {m : Model α} {p : Policy α} {horizon : Option Int}

-- What a policy must not have: a stage that covers other states than the model has, fewer stages than the horizon,
-- an action that the state does not have, weights for more actions than it has, or a negative weight.
inductive Policy.Flawed (m : Model α) (p : Policy α) (horizon : Option Int) : Prop
  | states {q : Policy α} {k : Nat} (stage : q ∈ p.stages) (covered : q.length? = some k) (other : k ≠ m.stateCount)
  | stages {T : Int} {k : Nat} (bound : T ∈ horizon) (staged : p.isStationary = false) (covered : p.length? = some k)
      (short : k < T)
  | action {actions : Array Int} {s k : Nat} {a : Int} (stage : .stationary actions ∈ p.stages)
      (state : s < m.stateCount) (count : m.actionCount (s : Nat) = .ok (k : Int)) (chosen : actions[s]? = some a)
      (outside : a < 0 ∨ k ≤ a)
  | excess {states : Array (Weights α)} {s k length : Nat} {w : Weights α} (stage : .randomized states ∈ p.stages)
      (state : s < m.stateCount) (count : m.actionCount (s : Nat) = .ok (k : Int)) (chosen : states[s]? = some w)
      (held : w.tensor.length? = some length) (longer : k < length)
  | negative {states : Array (Weights α)} {s : Nat} {w : Weights α} {x : α} (stage : .randomized states ∈ p.stages)
      (state : s < m.stateCount) (chosen : states[s]? = some w) (weight : x ∈ w.cells)
      (below : Scalar.lt x Scalar.zero = true)

theorem Policy.Flawed.not_checked (counted : ∀ s < m.stateCount, ∃ k : Nat, m.actionCount (s : Nat) = .ok (k : Int))
    (flawed : p.Flawed m horizon) (covers : ∀ T ∈ horizon, p.isStationary = false → ∀ k, p.length? = some k → T ≤ k)
    (checked : ∀ q ∈ p.stages, checkStage m q = .ok ()) : False := by
  cases flawed with
  | states stage covered other =>
    obtain ⟨_, known, rest⟩ := Outcome.bind_ok.mp (checked _ stage)
    cases covered.symm.trans (Outcome.ofOption_ok.mp known)
    exact other (bne_eq_false_iff_eq.mp (Outcome.unless_ok.mp rest).1)
  | stages bound staged covered short =>
    have enough := covers _ bound staged _ covered
    omega
  | action stage state count chosen outside =>
    rcases valid_rule (validate_checked rfl (checked _ stage)) rfl with ⟨_, same, _, each⟩ | ⟨_, same, _⟩
    · cases same
      obtain ⟨a, below, found⟩ := checkAction_ok count (each _ state)
      cases chosen.symm.trans found
      omega
    · cases same
  | excess stage state count chosen held longer =>
    rcases valid_rule (validate_checked rfl (checked _ stage)) rfl with ⟨_, same, _⟩ | ⟨_, same, _, each⟩
    · cases same
    · cases same
      obtain ⟨_, _, found, known, fits, _⟩ := checkWeights_ok count (each _ state)
      cases chosen.symm.trans found
      cases held.symm.trans known
      omega
  | negative stage state chosen weight below =>
    rcases valid_rule (validate_checked rfl (checked _ stage)) rfl with ⟨_, same, _⟩ | ⟨_, same, _, each⟩
    · cases same
    · cases same
      obtain ⟨k, count⟩ := counted _ state
      obtain ⟨_, _, found, _, _, nonneg, _⟩ := checkWeights_ok count (each _ state)
      cases chosen.symm.trans found
      rw [nonneg _ weight] at below
      cases below

theorem Policy.Flawed.refused (counted : ∀ s < m.stateCount, ∃ k : Nat, m.actionCount (s : Nat) = .ok (k : Int))
    (flawed : p.Flawed m horizon) : ∃ e, p.validate m (horizon.map .int) = .error e ∧ e.Refuses := by
  cases validated : p.validate m (horizon.map .int) with
  | ok _ =>
    obtain ⟨covers, checked⟩ := validated_iff.mp validated
    exact (flawed.not_checked counted covers checked).elim
  | error e => exact ⟨e, rfl, validate_refuses counted validated⟩

end Flaws

end MarkovDecision
