import MarkovDecision.Proofs.PolicyRule

namespace MarkovDecision

namespace Policy

section Stages

variable {α : Type}

def atStage (p : Policy α) (t : Nat) : Policy α :=
  match p with
  | .markov rules => .stationary (rules.getD t #[])
  | .markovRandomized rules => .randomized (rules.getD t #[])
  | rule => rule

theorem atStage_stationary (p : Policy α) (t : Nat) : (p.atStage t).isStationary = true := by
  cases p <;> rfl

def Covers (p : Policy α) (t : Int) : Prop :=
  p.isStationary = true ∨ ∃ k : Nat, p.length? = some k ∧ 0 ≤ t ∧ t < k

theorem Covers.place {p : Policy α} {i : Int} (covers : p.Covers i) (staged : p.isStationary = false) {k : Nat}
    (length : p.length? = some k) : 0 ≤ i ∧ i < k := by
  rcases covers with stationary | ⟨k', length', within⟩
  · rw [staged] at stationary
    cases stationary
  · cases length.symm.trans length'
    exact within

theorem Covers.below {p : Policy α} {t : Nat} (covers : p.Covers t) (staged : p.isStationary = false) {k : Nat}
    (length : p.length? = some k) : t < k := Int.ofNat_lt.mp (covers.place staged length).2

theorem Covers.toNat {p : Policy α} {i : Int} (covers : p.Covers i) : p.Covers i.toNat := by
  rcases covers with stationary | ⟨k, length, first, below⟩
  · exact Or.inl stationary
  · exact Or.inr ⟨k, length, by omega, by omega⟩

theorem Covers.listed {p : Policy α} {t : Nat} (covers : p.Covers t) : p.atStage t ∈ p.stages := by
  have listed {β : Type} {rules : Array β} (inside : t < rules.size) (default : β) :
      rules.getD t default ∈ rules.toList := by
    rw [Array.getD_eq_getD_getElem?, Array.getElem?_eq_getElem inside, Option.getD_some]
    exact Array.getElem_mem_toList inside
  cases p with
  | markov rules => exact List.mem_map_of_mem (listed (covers.below rfl rfl) #[])
  | markovRandomized rules => exact List.mem_map_of_mem (listed (covers.below rfl rfl) #[])
  | _ => exact List.mem_singleton_self _

theorem Covers.known {p : Policy α} {t : Nat} (covers : p.Covers t) :
    (if p.isStationary then .ok p else p.stage t) = .ok (p.atStage t) := by
  cases p with
  | markov rules => exact Outcome.bind_ok.mpr ⟨_, entry_getD (covers.below rfl rfl) #[], rfl⟩
  | markovRandomized rules => exact Outcome.bind_ok.mpr ⟨_, entry_getD (covers.below rfl rfl) #[], rfl⟩
  | _ => rfl

variable [Scalar α] {m : Model α} {p : Policy α} {horizon t : Nat}

theorem Covers.distribution {i : Int} (covers : p.Covers i) (s : Int) :
    p.distribution s i = (p.atStage i.toNat).distribution s 0 := by
  cases p with
  | markov rules =>
    obtain ⟨t, rfl⟩ := Int.eq_ofNat_of_zero_le (covers.place rfl rfl).1
    simp only [Policy.distribution, distribution?, entry_getD (covers.below rfl rfl) #[], Outcome.ok_bind]
    rfl
  | markovRandomized rules =>
    obtain ⟨t, rfl⟩ := Int.eq_ofNat_of_zero_le (covers.place rfl rfl).1
    simp only [Policy.distribution, distribution?, entry_getD (covers.below rfl rfl) #[], Outcome.ok_bind]
    rfl
  | _ => rfl

-- A policy is valid if it covers the horizon, where there is one, and the rule of every stage passes the check.
theorem validated_iff {given : Option Int} : p.validate m (given.map .int) = .ok () ↔
    (∀ T ∈ given, p.isStationary = false → ∀ k, p.length? = some k → T ≤ k) ∧
      ∀ q ∈ p.stages, checkStage m q = .ok () := by
  cases given with
  | none =>
    have unbounded : p.validate m none = p.stages.forM (checkStage m) := by
      cases p <;> rfl
    rw [Option.map_none, unbounded, Outcome.forM_ok]
    exact ⟨fun all => ⟨fun T none => (by cases none), all⟩, fun known => known.2⟩
  | some T =>
    -- with a rule per stage, there have to be as many rules as stages
    have staged (rules : List (Policy α)) {k : Nat} {e : Failure α} :
        (if decide ((k : Int) < T) = true then
          (throw e : Outcome α PUnit) >>= fun _ => rules.forM (checkStage m)
        else rules.forM (checkStage m)) = .ok () ↔
        T ≤ k ∧ ∀ q ∈ rules, checkStage m q = .ok () := by
      rw [Outcome.unless_ok, Outcome.forM_ok, decide_eq_false_iff_not, not_lt]
    simp only [Option.mem_some_iff, forall_eq']
    cases p with
    | markov rules =>
      refine (staged (rules.toList.map stationary)).trans (and_congr_left fun _ => ?_)
      exact ⟨fun covered _ k known => Option.some.inj known ▸ covered, fun all => all rfl _ rfl⟩
    | markovRandomized rules =>
      refine (staged (rules.toList.map randomized)).trans (and_congr_left fun _ => ?_)
      exact ⟨fun covered _ k known => Option.some.inj known ▸ covered, fun all => all rfl _ rfl⟩
    | _ =>
      refine ⟨fun valid => ⟨fun other => (by cases other), Outcome.forM_ok.mp valid⟩, fun known => ?_⟩
      exact Outcome.forM_ok.mpr known.2

theorem validate_iff : p.validate m (some (.int horizon)) = .ok () ↔
    (p.isStationary = false → ∀ k, p.length? = some k → horizon ≤ k) ∧
      ∀ q ∈ p.stages, checkStage m q = .ok () := by
  refine (validated_iff : p.validate m ((some (horizon : Int)).map .int) = .ok () ↔ _).trans ?_
  simp only [Option.mem_some_iff, forall_eq', Int.ofNat_le]

theorem covers_of_valid {given : Option Int} (valid : p.validate m (given.map .int) = .ok ()) {T : Int}
    (bound : T ∈ given) {t : Int} (first : 0 ≤ t) (below : t < T) : p.Covers t := by
  obtain ⟨covered, _⟩ := validated_iff.mp valid
  have known := covered T bound
  cases p with
  | markov rules => exact Or.inr ⟨_, rfl, first, below.trans_le (known rfl _ rfl)⟩
  | markovRandomized rules => exact Or.inr ⟨_, rfl, first, below.trans_le (known rfl _ rfl)⟩
  | _ => exact Or.inl rfl

theorem Covers.valid (covers : p.Covers t) (checked : ∀ q ∈ p.stages, checkStage m q = .ok ()) :
    (p.atStage t).validate m none = .ok () :=
  validate_checked (atStage_stationary p t) (checked _ covers.listed)

section Horizon

variable (valid : p.validate m (some (.int horizon)) = .ok ()) (below : t < horizon)

include valid below

theorem atStage_covered : p.Covers t := by
  have valid : p.validate m ((some (horizon : Int)).map .int) = .ok () := valid
  exact covers_of_valid valid rfl (Int.natCast_nonneg t) (Int.ofNat_lt.mpr below)

theorem atStage_listed : p.atStage t ∈ p.stages := (atStage_covered valid below).listed

theorem atStage_valid : (p.atStage t).validate m none = .ok () :=
  (atStage_covered valid below).valid (validate_iff.mp valid).2

theorem atStage_known : (if p.isStationary then .ok p else p.stage t) = .ok (p.atStage t) :=
  (atStage_covered valid below).known

end Horizon

end Stages

variable {n : Nat} {K : Type} [Field K]

def StagesSumToOne (p : Policy (Extended K)) : Prop := ∀ q ∈ p.stages, q.SumsToOne

def rules (p : Policy (Extended K)) (P : Process n K) (t : Nat) : P.Rule := (p.atStage t).rule P

theorem rules_distributions [LinearOrder K] [FloorRing K] [IsStrictOrderedRing K] {m : Model (Extended K)}
    {P : Process n K} (described : m.Describes P) {horizon : Nat} {p : Policy (Extended K)}
    (valid : p.validate m (some (.int horizon)) = .ok ()) (exact : p.StagesSumToOne) :
    ∀ t < horizon, P.IsDistribution (p.rules P t) := fun t below =>
  rule_distribution described (atStage_valid valid below) (atStage_stationary p t)
    (exact _ (atStage_listed valid below))

end Policy

section Selections

variable {n : Nat} {K : Type}

def Process.stagePolicy (P : Process n K) (d : Nat → P.Selection) (horizon : Nat) : Policy (Extended K) :=
  .markov (Array.ofFn fun t : Fin horizon => P.actionArray (d t))

variable {P : Process n K} {d : Nat → P.Selection} {horizon : Nat}

theorem stagePolicy_listed {q : Policy (Extended K)} (listed : q ∈ (P.stagePolicy d horizon).stages) :
    ∃ t, q = .stationary (P.actionArray (d t)) := by
  obtain ⟨actions, member, rfl⟩ := List.mem_map.mp listed
  rw [Array.toList_ofFn] at member
  obtain ⟨t, rfl⟩ := List.mem_ofFn.mp member
  exact ⟨t, rfl⟩

variable [Field K]

theorem stagePolicy_exact (P : Process n K) (d : Nat → P.Selection) (horizon : Nat) :
    (P.stagePolicy d horizon).StagesSumToOne := by
  intro q listed
  obtain ⟨t, rfl⟩ := stagePolicy_listed listed
  exact trivial

theorem stagePolicy_rules {t : Nat} (below : t < horizon) :
    (P.stagePolicy d horizon).rules P t = P.sure (d t) := by
  have cell : (Array.ofFn fun t : Fin horizon => P.actionArray (d t)).getD t #[] = P.actionArray (d t) := by
    simp [Array.getD, below]
  rw [Policy.rules, Process.stagePolicy, Policy.atStage, cell, Policy.rule_stationary]

theorem stagePolicy_valid [LinearOrder K] [FloorRing K] {m : Model (Extended K)} (described : m.Describes P)
    (d : Nat → P.Selection) (horizon : Nat) :
    (PolicyData.policy (P.stagePolicy d horizon)).validate m (some (.int horizon))
      = .ok (P.stagePolicy d horizon) := by
  have checked : (P.stagePolicy d horizon).validate m (some (.int horizon)) = .ok () := by
    refine Policy.validate_iff.mpr ⟨fun _ k known => ?_, fun q listed => ?_⟩
    · rw [Process.stagePolicy, Policy.length?, Array.size_ofFn] at known
      exact (Option.some.inj known).le
    · obtain ⟨t, rfl⟩ := stagePolicy_listed listed
      exact actionArray_checked described (d t)
  rw [PolicyData.validate, PolicyData.resolve, Outcome.ok_bind, checked]
  rfl

end Selections

end MarkovDecision
