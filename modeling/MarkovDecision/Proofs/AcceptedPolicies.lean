import MarkovDecision.Proofs.GuardedRuns
import MarkovDecision.Proofs.PolicyMatrix
import MarkovDecision.Proofs.SparseIteration

namespace MarkovDecision

section Choices

variable {K : Type} [Field K] [LinearOrder K] [FloorRing K]

-- The choices of a state: actions of the state, none of them twice, with positive weights that add up to about one.
structure Policy.Draws (p : Policy (Extended K)) (s k : Nat) (t : Int) (choices : List (Int × Extended K)) : Prop where
  listed : p.distribution (s : Nat) t = .ok choices
  distinct : (choices.map Prod.fst).Nodup
  actions : ∀ c ∈ choices, 0 ≤ c.1 ∧ c.1 < k
  positive : ∀ c ∈ choices, Scalar.lt Scalar.zero c.2 = true
  total : ∃ x : K, Scalar.arraySum (choices.map Prod.snd) = .finite x ∧ |x - 1| ≤ 1 / 10 ^ 8 + 1 / 10 ^ 5

namespace Weights

theorem distribution_distinct {α : Type} [Scalar α] {ps : List α} {choices : List (Int × α)}
    (listed : (perAction ps).distribution = .ok choices) : (choices.map Prod.fst).Nodup := by
  cases listed
  have places : ((ps.zipIdx.map Prod.snd).map Int.ofNat).Nodup := by
    rw [List.zipIdx_map_snd]
    exact List.Nodup.map (fun _ _ same => Int.ofNat.inj same) List.nodup_range'
  rw [List.map_map] at places ⊢
  exact places.sublist (List.filter_sublist.map _)

theorem distribution_total {ps : List K} (nonneg : ∀ p ∈ ps, 0 ≤ p) {choices : List (Int × Extended K)}
    (listed : (perAction (ps.map .finite)).distribution = .ok choices) :
    Scalar.arraySum (choices.map Prod.snd) = .finite ps.sum := by
  rw [distribution_finite] at listed
  cases listed
  have kept := sum_positive (fun _ => (1 : K)) ps.zipIdx fun x member => nonneg x.1 (List.fst_mem_of_mem_zipIdx member)
  simp only [mul_one, List.zipIdx_map_fst] at kept
  rw [Extended.arraySum_sum, List.map_map, ← kept]
  exact Extended.sum_map_finite Prod.fst _

end Weights

variable [IsStrictOrderedRing K] {m : Model (Extended K)} {p : Policy (Extended K)} {s k : Nat}

namespace Policy

theorem valid_draws (valid : p.validate m none = .ok ()) (stationary : p.isStationary = true)
    (inside : s < m.stateCount) (count : m.actionCount (s : Nat) = .ok (k : Int)) (readable : p.Readable s) :
    ∃ choices, p.Draws s k 0 choices := by
  rcases valid_rule valid stationary with ⟨actions, rfl, _, each⟩ | ⟨states, rfl, _, each⟩
  · obtain ⟨a, below, found⟩ := checkAction_ok count (each s inside)
    refine ⟨[((a : Nat), Scalar.one)], ?_, List.nodup_singleton _, ?_, ?_, 1, ?_, ?_⟩
    · rw [distribution, distribution?, entry_ok.mpr found]
      rfl
    · exact List.forall_mem_singleton.mpr ⟨Int.natCast_nonneg a, Int.ofNat_lt.mpr below⟩
    · exact List.forall_mem_singleton.mpr (by simp)
    · rw [Extended.arraySum_sum, ← Extended.scalarSum_eq]
      simp [Scalar.sum]
    · rw [sub_self, abs_zero]
      positivity
  · obtain ⟨w, length, place, known, covered, nonneg, near⟩ := checkWeights_ok count (each s inside)
    obtain ⟨ps, listed⟩ := readable
    cases place.symm.trans listed
    -- weights that add up to a number are numbers
    obtain ⟨total, sum⟩ := Extended.finite_of_isNearlyOne near
    have cells : (Weights.perAction ps).cells = ps := by simp [Weights.cells, Weights.tensor, Tensor.ofVector]
    rw [cells] at nonneg near sum
    rw [Extended.arraySum_sum] at near sum
    obtain ⟨ks, rfl⟩ := Extended.finite_of_sum sum
    rw [← Extended.scalarSum_eq, Extended.sum_finite, Extended.isNearlyOne_finite, decide_eq_true_eq] at near
    have nonneg : ∀ x ∈ ks, 0 ≤ x := by
      intro x member
      simpa using nonneg (.finite x) (List.mem_map_of_mem member)
    have size : ks.length = length := by simpa [Weights.tensor, Tensor.ofVector, Tensor.length?] using known
    obtain ⟨choices, drawn⟩ : ∃ choices, (Weights.perAction (ks.map Extended.finite)).distribution = .ok choices :=
      ⟨_, rfl⟩
    refine ⟨choices, ?_, Weights.distribution_distinct drawn, fun c member => ?_, fun c member => ?_, ks.sum,
      Weights.distribution_total nonneg drawn, near⟩
    · rw [distribution, distribution?, entry_ok.mpr place, Outcome.ok_bind, drawn]
      rfl
    · obtain ⟨i, same, found, _⟩ := (Weights.mem_distribution drawn c).mp member
      obtain ⟨below, _⟩ := List.getElem?_eq_some_iff.mp found
      rw [List.length_map] at below
      omega
    · obtain ⟨_, _, _, positive⟩ := (Weights.mem_distribution drawn c).mp member
      exact positive

theorem Covers.draws {i : Int} (covers : p.Covers i) (checked : ∀ q ∈ p.stages, checkStage m q = .ok ())
    (inside : s < m.stateCount) (count : m.actionCount (s : Nat) = .ok (k : Int))
    (readable : (p.atStage i.toNat).Readable s) : ∃ choices, p.Draws s k i choices := by
  have rule := covers.toNat.valid checked
  obtain ⟨choices, draws⟩ := valid_draws rule (p.atStage_stationary i.toNat) inside count readable
  exact ⟨choices, { draws with listed := (covers.distribution s).trans draws.listed }⟩

end Policy

end Choices

section Results

variable {K : Type} [Field K] [LinearOrder K] [FloorRing K]

-- A policy that was accepted draws from the actions of every state at every stage it covers, which are all those below
-- the horizon; what must not be in a policy is refused; and no run that follows a policy, accepted or not, fails for
-- an index out of its range, unless the terminal value does.
theorem accepted_policies_draw [IsStrictOrderedRing K] {m : Model (Extended K)} (listed : m.Listed)
    (p : Policy (Extended K)) (horizon : Option Int) :
    (p.validate m (horizon.map .int) = .ok () →
      (∀ T ∈ horizon, ∀ t, 0 ≤ t → t < T → p.Covers t) ∧
      ∀ t, p.Covers t → ∀ s < m.stateCount, (p.atStage t.toNat).Readable s →
        ∃ k choices, m.actionCount (s : Nat) = .ok ((k : Nat) : Int) ∧ p.Draws s k t choices) ∧
    (p.Flawed m horizon → ∃ e, p.validate m (horizon.map .int) = .error e ∧ e.Refuses) ∧
    (∀ o terminal settings j e j', (∀ w ∈ terminal, w.WellShaped) →
      (valueIteration m o (some (.policy p)) terminal settings).runOn j = (.error e, j') →
      e.kind ≠ .index ∨ ∃ w ∈ terminal, w.vector m.stateCount = .error e) ∧
    (∀ e, RewardProcess.ofPolicy m (.policy p) = .error e → e.kind ≠ .index) ∧
    ∀ e, SparseRewardProcess.ofPolicy m (.policy p) = .error e → e.kind ≠ .index := by
  have rows (e : Failure (Extended K)) (failed : RewardProcess.collectedRows m (.policy p) = .error e) :
      e.kind ≠ .index := by
    rcases RewardProcess.collectedRows_failure listed failed with refuses | structural
    · exact refuses.not_index
    · rw [structural]
      decide
  refine ⟨fun valid => ⟨fun T bound t first below => ?_, fun t covers s inside readable => ?_⟩,
    fun flawed => flawed.refused listed.counted, fun o terminal settings j e j' shaped ran => ?_,
    fun e failed => ?_, fun e failed => ?_⟩
  · exact Policy.covers_of_valid valid bound first below
  · obtain ⟨k, count⟩ := listed.counted s inside
    obtain ⟨choices, draws⟩ := covers.draws (Policy.validated_iff.mp valid).2 inside count readable
    exact ⟨k, choices, count, draws⟩
  · exact ((valueIteration_guarded listed o _ shaped settings).failure trivial ran).imp_left Failure.Refuses.not_index
  · rw [RewardProcess.ofPolicy_collected listed] at failed
    exact rows e (Outcome.map_eq_error.mp failed)
  · rw [SparseRewardProcess.ofPolicy_collected listed] at failed
    exact rows e (Outcome.map_eq_error.mp failed)

theorem accepted_policies_draw_undecided :
    (∃ choices, Policy.undecided.Draws 0 2 7 choices) ∧
    ∃ e, (Policy.stationary #[-1, 0] : Policy (Extended ℚ)).validate (.table Process.leaving.table) (some (.int 3))
      = .error e ∧ e.Refuses := by
  have listed := (table_describes Process.leaving).listed
  have count (s : Fin 2) : (Model.table Process.leaving.table).actionCount (s : Nat) = .ok ((2 : Nat) : Int) :=
    (table_describes Process.leaving).actions s
  constructor
  · obtain ⟨_, valid⟩ : ∃ done, Policy.undecided.validate (.table Process.leaving.table) none = .ok done :=
      Outcome.exists_ok (by decide +kernel)
    obtain ⟨_, draws⟩ := (accepted_policies_draw listed .undecided none).1 valid
    obtain ⟨k, choices, known, drawn⟩ := draws 7 (Or.inl rfl) 0 Nat.two_pos ⟨_, rfl⟩
    have two : ((k : Nat) : Int) = (2 : Nat) := Except.ok.inj (known.symm.trans (count 0))
    exact ⟨choices, Int.ofNat.inj two ▸ drawn⟩
  · obtain ⟨_, refused, _⟩ := accepted_policies_draw listed (.stationary #[-1, 0]) (some 3)
    exact refused (.action (List.mem_singleton_self _) Nat.two_pos (count 0) rfl (Or.inl (by decide)))

-- Weights that are nested pass the check, although there is nothing to draw from.
theorem nested_weights_undrawn : (Model.table Process.splitting.table).Listed ∧
    Policy.nested.validate (.table Process.splitting.table) none = .ok () ∧
    Policy.nested.distribution 0 0 = .error .invalidInput := by
  obtain ⟨_, valid⟩ : ∃ done, Policy.nested.validate (.table Process.splitting.table) none = .ok done :=
    Outcome.exists_ok (by decide +kernel)
  exact ⟨(table_describes Process.splitting).listed, valid, rfl⟩

end Results

end MarkovDecision
