import MarkovDecision.Proofs.Process.Horizon

namespace MarkovDecision

namespace Process

variable {n : Nat} {K : Type}

abbrev Move (P : Process n K) : Type := (s : Fin n) × (a : Fin (P.actionCount s)) × Fin (P.branches s a).length

variable {P : Process n K} {k : Nat}

abbrev Move.state (x : P.Move) : Fin n := x.1

abbrev Move.action (x : P.Move) : Fin (P.actionCount x.state) := x.2.1

def Move.branch (x : P.Move) : Branch n K := (P.branches x.1 x.2.1)[x.2.2]

def visited (s : Fin n) (x : Fin k → P.Move) : Fin (k + 1) → Fin n := Fin.cons s fun i => (x i).branch.next

def Connected (s : Fin n) (x : Fin k → P.Move) : Prop := ∀ i, (x i).state = visited s x i.castSucc

instance (s : Fin n) (x : Fin k → P.Move) : Decidable (Connected s x) :=
  inferInstanceAs (Decidable (∀ i, (x i).state = visited s x i.castSucc))

def trajectories (P : Process n K) (s : Fin n) (k : Nat) : Finset (Fin k → P.Move) := Finset.univ.filter (Connected s)

theorem trajectories_zero (P : Process n K) (s : Fin n) : P.trajectories s 0 = Finset.univ :=
  Finset.filter_true_of_mem fun _ _ i => i.elim0

theorem visited_cons (s : Fin n) (m : P.Move) (y : Fin k → P.Move) :
    visited s (Fin.cons m y : Fin (k + 1) → P.Move) = Fin.cons s (visited m.branch.next y) := by
  funext i
  cases i using Fin.cases with
  | zero => rfl
  | succ i => cases i using Fin.cases <;> rfl

theorem connected_cons {s : Fin n} {m : P.Move} {y : Fin k → P.Move} :
    Connected s (Fin.cons m y : Fin (k + 1) → P.Move) ↔ m.state = s ∧ Connected m.branch.next y := by
  rw [Connected, Fin.forall_fin_succ, visited_cons]
  rfl

variable [Field K]

def chance (rules : Nat → P.Rule) (t : Nat) (x : Fin k → P.Move) : K :=
  ∏ i : Fin k, rules (t + i) (x i).state (x i).action * (x i).branch.probability

def payoff (γ : K) (last : Fin n → K) (s : Fin n) (x : Fin k → P.Move) : K :=
  (∑ i : Fin k, γ ^ (i : Nat) * (x i).branch.reward) + γ ^ k * last (visited s x (Fin.last k))

variable {rules : Nat → P.Rule} {γ : K} {last : Fin n → K} {s : Fin n} {t : Nat}

theorem chance_cons (m : P.Move) (y : Fin k → P.Move) : chance rules t (Fin.cons m y : Fin (k + 1) → P.Move)
    = rules t m.state m.action * m.branch.probability * chance rules (t + 1) y := by
  rw [chance, Fin.prod_univ_succ]
  refine congrArg₂ (· * ·) rfl (Finset.prod_congr rfl fun i _ => ?_)
  rw [Fin.cons_succ, Fin.val_succ, Nat.add_right_comm, Nat.add_assoc]

theorem payoff_cons (m : P.Move) (y : Fin k → P.Move) : payoff γ last s (Fin.cons m y : Fin (k + 1) → P.Move)
    = m.branch.reward + γ * payoff γ last m.branch.next y := by
  rw [payoff, Fin.sum_univ_succ, visited_cons, ← Fin.succ_last, Fin.cons_succ, payoff, mul_add, Finset.mul_sum,
    Fin.cons_zero, Fin.val_zero, pow_zero, one_mul, add_assoc]
  simp only [Fin.cons_succ, Fin.val_succ, pow_succ', mul_assoc]

theorem sum_trajectories (f : (Fin (k + 1) → P.Move) → K) : ∑ x ∈ P.trajectories s (k + 1), f x
    = ∑ a, ∑ j : Fin (P.branches s a).length, ∑ y ∈ P.trajectories (P.branches s a)[j].next k,
      f (Fin.cons ⟨s, a, j⟩ y) := by
  rw [trajectories, Finset.sum_filter, ← Equiv.sum_comp (Fin.consEquiv fun _ => P.Move), Fintype.sum_prod_type,
    Fintype.sum_sigma, Finset.sum_eq_single s]
  · rw [Fintype.sum_sigma]
    refine Finset.sum_congr rfl fun a _ => Finset.sum_congr rfl fun j _ => ?_
    rw [trajectories, Finset.sum_filter]
    refine Finset.sum_congr rfl fun y _ => if_congr ?_ rfl rfl
    exact connected_cons.trans (and_iff_right rfl)
  · intro r _ other
    exact Finset.sum_eq_zero fun m _ => Finset.sum_eq_zero fun y _ =>
      if_neg fun connected => other (connected_cons.mp connected).1
  · exact fun out => absurd (Finset.mem_univ s) out

theorem sum_moves (w : P.Rule) (g : Branch n K → K) :
    ∑ a, ∑ j : Fin (P.branches s a).length, w s a * (P.branches s a)[j].probability * g (P.branches s a)[j]
      = ∑ a, w s a * ((P.branches s a).map fun b => b.probability * g b).sum := by
  refine Finset.sum_congr rfl fun a _ => ?_
  rw [← Fin.sum_univ_fun_getElem, Finset.mul_sum]
  exact Finset.sum_congr rfl fun j _ => mul_assoc _ _ _

variable [LinearOrder K]

theorem distributions_next (distributions : ∀ i < k + 1, P.IsDistribution (rules (t + i))) :
    ∀ i < k, P.IsDistribution (rules (t + 1 + i)) := by
  intro i below
  rw [Nat.add_right_comm, Nat.add_assoc]
  exact distributions (i + 1) (Nat.succ_lt_succ below)

theorem chance_total (stochastic : P.Stochastic) : ∀ (k t : Nat), (∀ i < k, P.IsDistribution (rules (t + i))) →
    ∀ s, ∑ x ∈ P.trajectories s k, chance rules t x = 1 := by
  intro k
  induction k with
  | zero =>
    intro t _ s
    simp [trajectories_zero, chance]
  | succ k ih =>
    intro t distributions s
    have later := distributions_next distributions
    calc ∑ x ∈ P.trajectories s (k + 1), chance rules t x
        = ∑ a, ∑ j : Fin (P.branches s a).length, rules t s a * (P.branches s a)[j].probability * 1 := by
          rw [sum_trajectories]
          refine Finset.sum_congr rfl fun a _ => Finset.sum_congr rfl fun j _ => ?_
          simp only [chance_cons, ← Finset.mul_sum]
          rw [ih (t + 1) later]
          rfl
      _ = ∑ a, rules t s a := by
          rw [sum_moves (rules t) fun _ => 1]
          refine Finset.sum_congr rfl fun a _ => ?_
          simp only [mul_one]
          rw [stochastic.total, mul_one]
      _ = 1 := (distributions 0 (Nat.succ_pos k)).total s

theorem backward_expectation (stochastic : P.Stochastic) : ∀ (k t : Nat), (∀ i < k, P.IsDistribution (rules (t + i))) →
    ∀ s, backward (fun i => P.follow γ (rules i)) last k t s
      = ∑ x ∈ P.trajectories s k, chance rules t x * payoff γ last s x := by
  intro k
  induction k with
  | zero =>
    intro t _ s
    simp [trajectories_zero, chance, payoff, backward, visited]
  | succ k ih =>
    intro t distributions s
    have later := distributions_next distributions
    let worth (b : Branch n K) : K := b.reward + γ * backward (fun i => P.follow γ (rules i)) last k (t + 1) b.next
    have average (b : Branch n K) : ∑ y ∈ P.trajectories b.next k,
        chance rules (t + 1) y * (b.reward + γ * payoff γ last b.next y) = worth b := by
      simp only [mul_add, Finset.sum_add_distrib, ← Finset.sum_mul]
      change _ = b.reward + γ * backward (fun i => P.follow γ (rules i)) last k (t + 1) b.next
      rw [chance_total stochastic k (t + 1) later, one_mul, ih (t + 1) later, Finset.mul_sum]
      exact congrArg (b.reward + ·) (Finset.sum_congr rfl fun y _ => mul_left_comm _ _ _)
    calc backward (fun i => P.follow γ (rules i)) last (k + 1) t s
        = ∑ a, rules t s a * ((P.branches s a).map fun b => b.probability * worth b).sum := rfl
      _ = ∑ a, ∑ j : Fin (P.branches s a).length,
            rules t s a * (P.branches s a)[j].probability * worth (P.branches s a)[j] := (sum_moves _ worth).symm
      _ = ∑ x ∈ P.trajectories s (k + 1), chance rules t x * payoff γ last s x := by
          rw [sum_trajectories]
          refine Finset.sum_congr rfl fun a _ => Finset.sum_congr rfl fun j _ => ?_
          rw [← average, Finset.mul_sum]
          refine Finset.sum_congr rfl fun y _ => ?_
          rw [chance_cons, payoff_cons]
          exact (mul_assoc _ _ _).symm

theorem followedAt_expectation (stochastic : P.Stochastic) {horizon : Nat}
    (distributions : ∀ i < horizon, P.IsDistribution (rules i)) (within : t ≤ horizon) (s : Fin n) :
    P.followedAt γ rules last horizon t s
      = ∑ x ∈ P.trajectories s (horizon - t), chance rules t x * payoff γ last s x :=
  backward_expectation stochastic (horizon - t) t (fun i below => distributions (t + i) (by omega)) s

end Process

end MarkovDecision
