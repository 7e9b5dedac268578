import MarkovDecision.Proofs.Process.TotalReward
import MarkovDecision.Proofs.ValueProgram

namespace MarkovDecision

variable {n : Nat} {K : Type} [Field K] [LinearOrder K]

-- -v(s) + E v ≤ -pay(s, a), and nothing for terminal states.
def Process.payPlan (P : Process n K) (pay : P.Tariff) : RowPlan P :=
  ⟨-1, 1, fun s a => -pay s a, fun s => decide (P.Terminal s)⟩

-- v(s) - E v ≤ 1, and nothing for terminal states.
def Process.clockPlan (P : Process n K) : RowPlan P :=
  ⟨1, -1, fun _ _ => 1, fun s => decide (P.Terminal s)⟩

theorem payPlan_slack {P : Process n K} (pay : P.Tariff) (v : Fin n → K) (s : Fin n)
    (a : Fin (P.actionCount s)) : (P.payPlan pay).slack v ⟨s, a⟩ = v s - (pay s a + P.mean v s a) := by
  rw [RowPlan.slack, Process.payPlan]
  ring

variable [FloorRing K]

section Terminal

variable {m : Model (Extended K)} {P : Process n K}

theorem isTerminal_exact (described : m.Describes P) (stochastic : P.Stochastic) (s : Fin n) :
    m.isTerminal ((s : Nat) : Int) = .ok (decide (P.Terminal s)) := by
  rw [Model.isTerminal, described.actions s, Outcome.ok_bind]
  by_cases single : P.actionCount s = 1
  · obtain ⟨ts, known, reads⟩ := described.outcomes s ⟨0, P.hasAction s⟩
    have total := stochastic.total s ⟨0, P.hasAction s⟩
    have known : m.transitions ((s : Nat) : Int) 0 = .ok ts := known
    rw [if_neg (by simp [single]), known, Outcome.ok_bind]
    obtain ⟨bs, same⟩ : ∃ bs, P.branches s ⟨0, P.hasAction s⟩ = bs := ⟨_, rfl⟩
    have terminal : P.Terminal s ↔ bs = [⟨s, 1, 0⟩] := by
      rw [← same]
      exact and_iff_right single
    rw [same] at reads total
    cases reads with
    | nil => simp [terminal]
    | @cons t b ts bs first rest =>
      cases rest with
      | cons _ _ => simp [terminal]
      | nil =>
        have sure : b.probability = 1 := by simpa using total
        have names : t.next.names ((s : Nat) : Int) = decide (b.next = s) := by
          rw [first.next, Bool.eq_iff_iff]
          simp [StateLabel.names, StateLabel.literal, Literal.equalsInt, Fin.ext_iff]
        have surely : Scalar.isSurely t.probability.value = true := by
          rw [first.probability, sure]
          simp [Scalar.isSurely]
        have free : Scalar.eq t.reward.value Scalar.zero = decide (b.reward = 0) := by
          rw [first.reward]
          simp
        have stays : P.Terminal s ↔ b.next = s ∧ b.reward = 0 := by
          rw [terminal]
          cases b
          simp_all
        dsimp only
        rw [names, surely, free, decide_eq_decide.mpr stays, Bool.and_true, ← Bool.decide_and]
        rfl
  · have lasting : ¬P.Terminal s := fun terminal => single terminal.1
    rw [if_pos (by simpa using single), decide_eq_false lasting]
    rfl

variable [IsStrictOrderedRing K]

theorem someTransience_exact (described : m.Describes P) (stochastic : P.Stochastic) :
    StateProgram.someTransience m = .ok P.clockPlan.program := by
  have follows : P.clockPlan.Follows m ⟨Scalar.one, -Scalar.one, fun _ => .whole 1, true⟩ := by
    refine ⟨Extended.one_eq, Extended.neg_one, fun s a ts _ => ?_, isTerminal_exact described stochastic⟩
    rw [Quantity.value_whole, Int.cast_one]
    rfl
  exact RowPlan.collect_exact described follows

theorem everyTransience_exact (described : m.Describes P) (stochastic : P.Stochastic) :
    StateProgram.everyTransience m = .ok (P.payPlan fun _ _ => 1).program := by
  have follows : (P.payPlan fun _ _ => 1).Follows m
      ⟨-Scalar.one, Scalar.one, fun _ => .whole (-1), true⟩ := by
    refine ⟨Extended.neg_one, Extended.one_eq, fun s a ts _ => ?_, isTerminal_exact described stochastic⟩
    rw [Quantity.value_whole, Int.cast_neg, Int.cast_one]
    rfl
  exact RowPlan.collect_exact described follows

theorem totalProgram_exact (described : m.Describes P) (stochastic : P.Stochastic) :
    StateProgram.value m (.objective .total) = .ok (P.payPlan P.reward).program := by
  have follows : (P.payPlan P.reward).Follows m
      ⟨-Scalar.one, Scalar.one, fun ts => (StateProgram.expectedReward ts).neg, true⟩ :=
    ⟨Extended.neg_one, Extended.one_eq, fun _ _ _ reads => negatedReward_exact reads,
      isTerminal_exact described stochastic⟩
  exact RowPlan.collect_exact described follows

end Terminal

section Plans

variable [IsStrictOrderedRing K] {P : Process n K}

theorem payPlan_feasible (pay : P.Tariff) (v : Fin n → K) :
    (P.payPlan pay).program.program.Feasible v ↔ P.Dominates pay v := by
  rw [RowPlan.feasible_iff]
  constructor
  · rintro ⟨zero, rows⟩
    refine ⟨fun s ends => zero s (decide_eq_true ends), fun s lasting a => ?_⟩
    have short := rows s (decide_eq_false lasting) a
    rw [payPlan_slack] at short
    exact sub_nonneg.mp short
  · intro dominates
    refine ⟨fun s fixed => dominates.terminal s (of_decide_eq_true fixed), fun s free a => ?_⟩
    rw [payPlan_slack]
    exact sub_nonneg.mpr (dominates.step s (of_decide_eq_false free) a)

theorem payPlan_optimal (pay : P.Tariff) (v : Fin n → K) :
    (P.payPlan pay).program.program.Optimal .minimise v ↔ P.Least pay v := by
  simp only [RowPlan.optimal_iff, payPlan_feasible, Direction.signed]
  constructor
  · rintro ⟨inside, best⟩
    exact ⟨inside, best⟩
  · intro least
    exact ⟨least.dominates, least.least⟩

theorem clockPlan_feasible (v : Fin n → K) :
    P.clockPlan.program.program.Feasible v ↔ P.Dominates (fun _ _ => -1) (-v) := by
  rw [← payPlan_feasible, RowPlan.feasible_iff, RowPlan.feasible_iff]
  refine and_congr (forall_congr' fun s => ?_) ?_
  · rw [Pi.neg_apply, neg_eq_zero]
    rfl
  · refine forall_congr' fun s => forall_congr' fun _ => forall_congr' fun a => ?_
    rw [payPlan_slack, Process.mean_neg, RowPlan.slack, Process.clockPlan, Pi.neg_apply]
    refine Eq.to_iff (congrArg (0 ≤ ·) ?_)
    ring

theorem clockPlan_optimal (v : Fin n → K) :
    P.clockPlan.program.program.Optimal .maximise v ↔ P.Least (fun _ _ => -1) (-v) := by
  simp only [RowPlan.optimal_iff, clockPlan_feasible, Direction.signed]
  constructor
  · rintro ⟨inside, best⟩
    refine ⟨inside, fun u other => ?_⟩
    have bound := best (-u) (by rwa [neg_neg])
    simpa using bound
  · intro least
    refine ⟨least.dominates, fun u other => ?_⟩
    have bound := least.least (-u) other
    simpa using bound

end Plans

end MarkovDecision
