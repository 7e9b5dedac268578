import MarkovDecision.Proofs.Process.TotalReward

namespace MarkovDecision

namespace Process

variable {n : Nat} {K : Type} [Field K]

def Carries (P : Process n K) (d : P.Selection) (y : P.Tariff) : Prop :=
  ∀ s, ¬P.Terminal s → ∀ a, a ≠ d s → y s a = 0

def lost (P : Process n K) (y : P.Tariff) (v : Fin n → K) : K :=
  ∑ s, ∑ a, y s a * (v s - P.mean v s a)

section Sums

variable {P : Process n K} {y : P.Tariff} {v : Fin n → K} {s : Fin n}

theorem lost_smul (c : K) (y : P.Tariff) (v : Fin n → K) : P.lost y (c • v) = c * P.lost y v := by
  simp only [lost, mean_smul, Pi.smul_apply, smul_eq_mul, Finset.mul_sum, ← mul_sub, mul_left_comm c]

theorem loss_terminal (ends : P.Terminal s) (y : P.Tariff) (v : Fin n → K) :
    ∑ a, y s a * (v s - P.mean v s a) = 0 :=
  Finset.sum_eq_zero fun a _ => by rw [mean_terminal ends, sub_self, mul_zero]

theorem sum_carried {a : Fin (P.actionCount s)} (others : ∀ b, b ≠ a → y s b = 0)
    (f : Fin (P.actionCount s) → K) : ∑ b, y s b * f b = y s a * f a :=
  Finset.sum_eq_single a (fun b _ other => by rw [others b other, zero_mul])
    fun missing => absurd (Finset.mem_univ _) missing

end Sums

variable [LinearOrder K]

-- The balance is stated against all vectors that are zero at the end: what such a vector loses on the way
-- is what it had at the starts.
structure Flow (P : Process n K) (y : P.Tariff) : Prop where
  nonneg : ∀ s, ¬P.Terminal s → ∀ a, 0 ≤ y s a
  balance : ∀ v : Fin n → K, (∀ s, P.Terminal s → v s = 0) →
    ∑ s, v s = P.lost y v

def collected (P : Process n K) (pay y : P.Tariff) : K :=
  ∑ s, if P.Terminal s then 0 else ∑ a, y s a * pay s a

def shortfall (P : Process n K) (pay y : P.Tariff) (v : Fin n → K) : K :=
  ∑ s, if P.Terminal s then 0 else ∑ a, y s a * (v s - (pay s a + P.mean v s a))

variable {P : Process n K} {d : P.Selection} {pay y : P.Tariff} {v : Fin n → K}

theorem shortfall_eq (pay y : P.Tariff) (v : Fin n → K) :
    P.shortfall pay y v = P.lost y v - P.collected pay y := by
  rw [shortfall, lost, collected, ← Finset.sum_sub_distrib]
  refine Finset.sum_congr rfl fun s _ => ?_
  by_cases ends : P.Terminal s
  · rw [if_pos ends, if_pos ends, loss_terminal ends, sub_zero]
  · rw [if_neg ends, if_neg ends, ← Finset.sum_sub_distrib]
    exact Finset.sum_congr rfl fun a _ => by ring

theorem Flow.collected_eq (flow : P.Flow y) (zero : ∀ s, P.Terminal s → v s = 0) (pay : P.Tariff) :
    P.collected pay y = ∑ s, v s - P.shortfall pay y v := by
  rw [shortfall_eq, flow.balance v zero]
  ring

variable [IsStrictOrderedRing K]

section Bounds

theorem Flow.shortfall_nonneg (flow : P.Flow y) (dominates : P.Dominates pay v) (s : Fin n) :
    0 ≤ if P.Terminal s then 0 else ∑ a, y s a * (v s - (pay s a + P.mean v s a)) := by
  split
  · exact le_refl 0
  · rename_i lasting
    exact Finset.sum_nonneg fun a _ => mul_nonneg (flow.nonneg s lasting a)
      (sub_nonneg.mpr (dominates.step s lasting a))

theorem Flow.collected_le (flow : P.Flow y) (dominates : P.Dominates pay v) :
    P.collected pay y ≤ ∑ s, v s := by
  have floor : 0 ≤ P.shortfall pay y v := Finset.sum_nonneg fun s _ => flow.shortfall_nonneg dominates s
  rw [flow.collected_eq dominates.terminal pay]
  linarith

theorem Flow.complementary (flow : P.Flow y) (dominates : P.Dominates pay v)
    (all : P.collected pay y = ∑ s, v s) {s : Fin n} (lasting : ¬P.Terminal s)
    (a : Fin (P.actionCount s)) : y s a * (v s - (pay s a + P.mean v s a)) = 0 := by
  have none : P.shortfall pay y v = 0 := by
    rw [flow.collected_eq dominates.terminal pay] at all
    linarith
  have state := (Finset.sum_eq_zero_iff_of_nonneg fun t _ => flow.shortfall_nonneg dominates t).mp
    none s (Finset.mem_univ s)
  rw [if_neg lasting] at state
  exact (Finset.sum_eq_zero_iff_of_nonneg fun b _ => mul_nonneg (flow.nonneg s lasting b)
    (sub_nonneg.mpr (dominates.step s lasting b))).mp state a (Finset.mem_univ a)

theorem Flow.one_le (stochastic : P.Stochastic) (flow : P.Flow y) {s : Fin n} (lasting : ¬P.Terminal s) :
    1 ≤ ∑ a, y s a := by
  have zero : ∀ t, P.Terminal t → (Pi.single s 1 : Fin n → K) t = 0 := by
    intro t ends
    refine Pi.single_eq_of_ne (fun same => ?_) 1
    subst same
    exact lasting ends
  have inside : ∀ t, 0 ≤ (Pi.single s 1 : Fin n → K) t := fun t => by
    rw [Pi.single_apply]
    split
    · exact zero_le_one
    · exact le_refl 0
  have balance := flow.balance _ zero
  rw [Finset.sum_pi_single' s (1 : K) Finset.univ, if_pos (Finset.mem_univ s)] at balance
  -- the state itself loses at most one, every other state nothing
  have loses (t : Fin n) : ∑ a, y t a * ((Pi.single s 1 : Fin n → K) t - P.mean (Pi.single s 1) t a)
      ≤ if t = s then ∑ a, y s a else 0 := by
    by_cases here : t = s
    · subst here
      rw [if_pos rfl]
      refine Finset.sum_le_sum fun a _ => mul_le_of_le_one_right (flow.nonneg t lasting a) ?_
      rw [Pi.single_eq_same]
      linarith [mean_ge stochastic inside t a]
    · rw [if_neg here]
      by_cases ends : P.Terminal t
      · rw [loss_terminal ends]
      · refine Finset.sum_nonpos fun a _ => mul_nonpos_of_nonneg_of_nonpos (flow.nonneg t ends a) ?_
        rw [Pi.single_eq_of_ne here]
        linarith [mean_ge stochastic inside t a]
  have total : P.lost y (Pi.single s 1) ≤ _ := Finset.sum_le_sum fun t _ => loses t
  rwa [← balance, Finset.sum_ite_eq' Finset.univ s, if_pos (Finset.mem_univ s)] at total

-- From a trap nothing would be lost on the way, though it is where some of the flow starts.
theorem Flow.untrapped (stochastic : P.Stochastic) (flow : P.Flow y) (carries : P.Carries d y) :
    P.Untrapped (P.only d) := by
  classical
  intro A trap
  have zero : ∀ s, P.Terminal s → (A.indicator 1 : Fin n → K) s = 0 := fun s ends =>
    Set.indicator_of_notMem (fun member => trap.lasting s member ends) _
  have inside : ∀ s, 0 ≤ (A.indicator 1 : Fin n → K) s := fun s =>
    Set.indicator_nonneg (fun _ _ => zero_le_one) s
  have loses (s : Fin n) :
      ∑ a, y s a * ((A.indicator 1 : Fin n → K) s - P.mean (A.indicator 1) s a) ≤ 0 := by
    by_cases ends : P.Terminal s
    · rw [loss_terminal ends]
    · rw [sum_carried (carries s ends)]
      refine mul_nonpos_of_nonneg_of_nonpos (flow.nonneg s ends (d s)) (sub_nonpos.mpr ?_)
      by_cases member : s ∈ A
      · rw [Set.indicator_of_mem member, Pi.one_apply, ← mean_const stochastic 1 s (d s)]
        refine le_of_eq (congrArg List.sum (List.map_congr_left fun b listed => ?_))
        rw [Set.indicator_of_mem (trap.closed s member (d s) rfl b listed), Pi.one_apply]
      · rw [Set.indicator_of_notMem member]
        exact mean_ge stochastic inside s (d s)
  have none : ∑ s, (A.indicator 1 : Fin n → K) s = 0 :=
    le_antisymm ((flow.balance _ zero).trans_le (Finset.sum_nonpos fun s _ => loses s))
      (Finset.sum_nonneg fun s _ => inside s)
  refine Set.eq_empty_iff_forall_notMem.mpr fun s member => ?_
  have one := (Finset.sum_eq_zero_iff_of_nonneg fun s _ => inside s).mp none s (Finset.mem_univ s)
  rw [Set.indicator_of_mem member] at one
  exact one_ne_zero one

end Bounds

section Existence

theorem earns_unique (stochastic : P.Stochastic) (untrapped : P.Untrapped (P.only d)) {u : Fin n → K}
    (first : P.Earns pay d u) (second : P.Earns pay d v) : u = v := by
  have ordered {x z : Fin n → K} (one : P.Earns pay d x) (two : P.Earns pay d z) (s : Fin n) : x s ≤ z s :=
    le_of_untrapped stochastic untrapped (fun t ends => ((one.terminal t ends).trans (two.terminal t ends).symm).le)
      (fun t lasting => (one.step t lasting).le) (fun t lasting => (two.step t lasting).ge) s
  exact funext fun s => le_antisymm (ordered first second s) (ordered second first s)

-- How often each state is visited is what a visit earns at one apiece. A vector earns what it loses at
-- every visit, so it is the sum of these losses.
theorem exists_flow (stochastic : P.Stochastic) (untrapped : P.Untrapped (P.only d)) :
    ∃ y, P.Flow y ∧ P.Carries d y := by
  let once (t s : Fin n) (_ : Fin (P.actionCount s)) : K := if s = t then 1 else 0
  choose visits earns using fun t => exists_earnings stochastic untrapped (once t)
  have nonneg (t s : Fin n) : 0 ≤ visits t s := by
    refine le_of_untrapped (u := 0) stochastic untrapped (fun x ends => ((earns t).terminal x ends).ge)
      (fun x _ => ?_) (fun x lasting => ((earns t).step x lasting).ge) s
    rw [show P.mean 0 x (d x) = 0 from mean_const stochastic 0 x (d x), add_zero, Pi.zero_apply]
    unfold once
    split <;> simp
  refine ⟨fun s a => if a = d s then ∑ r, visits s r else 0, ⟨fun s _ a => ?_, fun v zero => ?_⟩,
    fun s _ a other => if_neg other⟩
  · split
    · exact Finset.sum_nonneg fun r _ => nonneg s r
    · exact le_refl 0
  · have lost : v = fun r => ∑ t, (v t - P.mean v t (d t)) * visits t r := by
      have first : P.Earns (fun s a => v s - P.mean v s a) d v := ⟨zero, fun s _ => by ring⟩
      refine earns_unique stochastic untrapped first ⟨fun s ends => ?_, fun s lasting => ?_⟩
      · exact Finset.sum_eq_zero fun t _ => by rw [(earns t).terminal s ends, mul_zero]
      · rw [mean_combination]
        simp only [fun t => (earns t).step s lasting, once, mul_add, Finset.sum_add_distrib, mul_ite, mul_one,
          mul_zero, Finset.sum_ite_eq, Finset.mem_univ, if_true]
    calc ∑ r, v r = ∑ r, ∑ t, (v t - P.mean v t (d t)) * visits t r :=
          Finset.sum_congr rfl fun r _ => congrFun lost r
      _ = ∑ t, (∑ r, visits t r) * (v t - P.mean v t (d t)) := by
          rw [Finset.sum_comm]
          exact Finset.sum_congr rfl fun t _ => by rw [mul_comm, Finset.mul_sum]
      _ = _ := Finset.sum_congr rfl fun t _ => by simp

variable [Archimedean K]

theorem exists_optimal_flow (stochastic : P.Stochastic) (least : P.Least pay v) :
    ∃ y, P.Flow y ∧ P.collected pay y = ∑ s, v s := by
  obtain ⟨d, transient, earns⟩ := least_attained stochastic least
  obtain ⟨y, flow, carries⟩ := exists_flow stochastic ((transient_iff_untrapped stochastic d).mp transient)
  refine ⟨y, flow, ?_⟩
  rw [flow.collected_eq least.dominates.terminal pay, sub_eq_self]
  refine Finset.sum_eq_zero fun s _ => ?_
  split
  · rfl
  · rename_i lasting
    rw [sum_carried (carries s lasting), ← earns.step s lasting, sub_self, mul_zero]

end Existence

end Process

end MarkovDecision
