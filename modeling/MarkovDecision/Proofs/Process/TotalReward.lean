import MarkovDecision.Proofs.Process.Transience

namespace MarkovDecision

namespace Process

variable {n : Nat} {K : Type} [Field K]

def gain (P : Process n K) (d : P.Selection) : Nat → Fin n → K
  | 0, _ => 0
  | k + 1, s => P.actionValue 1 (gain P d k) s (d s)

theorem gain_terminal {P : Process n K} {d : P.Selection} {s : Fin n} (terminal : P.Terminal s) (k : Nat) :
    P.gain d k s = 0 := by
  induction k with
  | zero => rfl
  | succ k ih => rw [gain, actionValue_eq, reward_terminal terminal, mean_terminal terminal, ih]; simp

variable [LinearOrder K]

def Totals (P : Process n K) (d : P.Selection) (v : Fin n → K) : Prop :=
  ∀ s, ∀ ε > 0, ∃ k, ∀ i ≥ k, |P.gain d i s - v s| < ε

-- No action of a state that lasts is worth more than the state, and terminal states are worth nothing.
structure Dominates (P : Process n K) (pay : P.Tariff) (v : Fin n → K) : Prop where
  terminal : ∀ s, P.Terminal s → v s = 0
  step : ∀ s, ¬P.Terminal s → ∀ a, pay s a + P.mean v s a ≤ v s

structure Least (P : Process n K) (pay : P.Tariff) (v : Fin n → K) : Prop where
  dominates : P.Dominates pay v
  least : ∀ u, P.Dominates pay u → ∑ s, v s ≤ ∑ s, u s

variable {P : Process n K} {d : P.Selection} {pay : P.Tariff} {u v : Fin n → K}

def binding (P : Process n K) (pay : P.Tariff) (v : Fin n → K) : P.Choices :=
  fun s a => pay s a + P.mean v s a = v s

variable [IsStrictOrderedRing K]

section Limits

-- What is not earned yet after k steps is what is earned by those runs that have not ended.
theorem gain_close (stochastic : P.Stochastic) (earns : P.Earns P.reward d v) {c : K}
    (bound : ∀ s, |v s| ≤ c) (k : Nat) : ∀ s, |v s - P.gain d k s| ≤ c * P.alive d k s := by
  induction k with
  | zero =>
    intro s
    by_cases ends : P.Terminal s
    · rw [gain_terminal ends, earns.terminal s ends, alive_terminal ends]
      simp
    · rw [gain, sub_zero, show P.alive d 0 s = 1 from if_neg ends, mul_one]
      exact bound s
  | succ k ih =>
    intro s
    by_cases ends : P.Terminal s
    · rw [gain_terminal ends, earns.terminal s ends, alive_terminal ends]
      simp
    · have rest : v s - P.gain d (k + 1) s = P.mean (v - P.gain d k) s (d s) := by
        rw [gain, actionValue_eq, mean_sub, earns.step s ends]
        ring
      have scaled : c * P.alive d (k + 1) s = P.mean (c • P.alive d k) s (d s) := by
        rw [alive_next ends, mean_smul]
      rw [rest, scaled]
      exact abs_mean_le stochastic.positive ih s (d s)

theorem alive_antitone (stochastic : P.Stochastic) (k : Nat) : ∀ s, P.alive d (k + 1) s ≤ P.alive d k s := by
  induction k with
  | zero =>
    intro s
    by_cases ends : P.Terminal s
    · rw [alive_terminal ends, alive_terminal ends]
    · rw [alive_next ends, show P.alive d 0 s = 1 from if_neg ends]
      refine mean_le stochastic (fun t => ?_) s (d s)
      rw [alive]
      split
      · exact zero_le_one
      · exact le_refl 1
  | succ k ih =>
    intro s
    by_cases ends : P.Terminal s
    · rw [alive_terminal ends, alive_terminal ends]
    · rw [alive_next ends, alive_next ends]
      exact mean_mono stochastic.positive ih s (d s)

variable [Archimedean K]

theorem alive_vanishes (stochastic : P.Stochastic) (transient : P.Transient d) (s : Fin n) {ε : K}
    (positive : 0 < ε) : ∃ k, ∀ i ≥ k, P.alive d i s < ε := by
  obtain ⟨bound, bounds⟩ := transient s
  obtain ⟨k, large⟩ := exists_nat_gt (bound / ε)
  have falling : Antitone fun i => P.alive d i s := antitone_nat_of_succ_le fun i =>
    alive_antitone stochastic i s
  refine ⟨k, fun i late => ?_⟩
  by_contra above
  have all : (k : K) * ε ≤ bound := by
    calc (k : K) * ε = ∑ _j ∈ Finset.range k, ε := by simp
      _ ≤ ∑ j ∈ Finset.range k, P.alive d j s := Finset.sum_le_sum fun j early =>
          (not_lt.mp above).trans (falling ((Finset.mem_range.mp early).le.trans late))
      _ ≤ bound := bounds k
  rw [div_lt_iff₀ positive] at large
  exact large.not_ge all

theorem totals_of_earns (stochastic : P.Stochastic) (transient : P.Transient d)
    (earns : P.Earns P.reward d v) : P.Totals d v := by
  intro s ε positive
  let c : K := 1 + ∑ t, |v t|
  have nonneg : 0 ≤ ∑ t, |v t| := Finset.sum_nonneg fun t _ => abs_nonneg (v t)
  have scale : 0 < c := by
    change 0 < 1 + ∑ t, |v t|
    linarith
  have bound : ∀ t, |v t| ≤ c := by
    intro t
    have one := Finset.single_le_sum (f := fun t => |v t|) (fun t _ => abs_nonneg (v t)) (Finset.mem_univ t)
    change |v t| ≤ 1 + ∑ t, |v t|
    linarith
  obtain ⟨k, small⟩ := alive_vanishes stochastic transient s (div_pos positive scale)
  refine ⟨k, fun i late => ?_⟩
  rw [abs_sub_comm]
  calc |v s - P.gain d i s| ≤ c * P.alive d i s := gain_close stochastic earns bound i s
    _ < ε := by
      have share := small i late
      rwa [lt_div_iff₀ scale, mul_comm] at share

end Limits

section Optimum

theorem earns_le_of_dominates (stochastic : P.Stochastic) (untrapped : P.Untrapped (P.only d))
    (earns : P.Earns pay d u) (dominates : P.Dominates pay v) (s : Fin n) : u s ≤ v s :=
  le_of_untrapped stochastic untrapped
    (fun t ends => (earns.terminal t ends).trans (dominates.terminal t ends).symm |>.le)
    (fun t lasting => (earns.step t lasting).le) (fun t lasting => dominates.step t lasting (d t)) s

theorem exists_gap {ι : Type} [Fintype ι] (f : ι → K) : ∃ ε > 0, ∀ x, 0 < f x → ε ≤ f x := by
  classical
  rcases (Finset.univ.filter fun x => 0 < f x).eq_empty_or_nonempty with none | some
  · refine ⟨1, zero_lt_one, fun x above => ?_⟩
    have member : x ∈ Finset.univ.filter fun x => 0 < f x := by simpa using above
    rw [none] at member
    exact absurd member (Finset.notMem_empty x)
  · obtain ⟨x, member, lowest⟩ := Finset.exists_min_image _ f some
    exact ⟨f x, (Finset.mem_filter.mp member).2, fun y above => lowest y (by simpa using above)⟩

-- On a trap of the binding actions a vector can be lowered a little: all other actions fall short by
-- some positive amount.
theorem dominates_of_lowered (stochastic : P.Stochastic) (dominates : P.Dominates pay v)
    {A : Set (Fin n)} [DecidablePred (· ∈ A)] (trap : P.Trap (P.binding pay v) A) :
    ∃ ε > 0, P.Dominates pay fun s => if s ∈ A then v s - ε else v s := by
  obtain ⟨ε, positive, small⟩ := exists_gap fun x : Σ s : Fin n, Fin (P.actionCount s) =>
    v x.1 - (pay x.1 x.2 + P.mean v x.1 x.2)
  let u (s : Fin n) : K := if s ∈ A then v s - ε else v s
  have inner {s : Fin n} (member : s ∈ A) : u s = v s - ε := if_pos member
  have outer {s : Fin n} (away : s ∉ A) : u s = v s := if_neg away
  have below (s : Fin n) : u s ≤ v s := by
    by_cases member : s ∈ A
    · rw [inner member]
      linarith
    · rw [outer member]
  refine ⟨ε, positive, ?_, ?_⟩
  · intro s ends
    rw [← dominates.terminal s ends]
    exact outer fun member => trap.lasting s member ends
  · intro s lasting a
    change pay s a + P.mean u s a ≤ u s
    have worth := dominates.step s lasting a
    have lower := mean_mono stochastic.positive below s a
    by_cases member : s ∈ A
    · rw [inner member]
      by_cases binds : pay s a + P.mean v s a = v s
      · have moved : P.mean u s a = P.mean (v - fun _ => ε) s a :=
          congrArg List.sum (List.map_congr_left fun b listed => by
            rw [inner (trap.closed s member a binds b listed)]
            rfl)
        rw [moved, mean_sub, mean_const stochastic]
        linarith
      · have short := small ⟨s, a⟩ (sub_pos.mpr (lt_of_le_of_ne worth binds))
        dsimp only at short
        linarith
    · rw [outer member]
      linarith

theorem binding_untrapped (stochastic : P.Stochastic) (least : P.Least pay v) :
    P.Untrapped (P.binding pay v) := by
  classical
  intro A trap
  obtain ⟨ε, positive, lowered⟩ := dominates_of_lowered stochastic least.dominates trap
  refine Set.eq_empty_iff_forall_notMem.mpr fun s member => (least.least _ lowered).not_gt ?_
  refine Finset.sum_lt_sum (fun t _ => ?_) ⟨s, Finset.mem_univ s, ?_⟩
  · split
    · linarith
    · exact le_refl _
  · rw [if_pos member]
    linarith

theorem earns_update (stochastic : P.Stochastic) (earns : P.Earns pay d u) {s : Fin n}
    {a : Fin (P.actionCount s)} (lasting : ¬P.Terminal s) (better : u s < pay s a + P.mean u s a)
    (untrapped : P.Untrapped (P.only (Function.update d s a)))
    (improved : P.Earns pay (Function.update d s a) v) : ∑ t, u t < ∑ t, v t := by
  have raised (t : Fin n) (lasts : ¬P.Terminal t) :
      u t ≤ pay t (Function.update d s a t) + P.mean u t (Function.update d s a t) := by
    by_cases here : t = s
    · subst here
      rw [Function.update_self]
      exact better.le
    · rw [Function.update_of_ne here]
      exact (earns.step t lasts).le
  have above : ∀ t, u t ≤ v t := le_of_untrapped stochastic untrapped
    (fun t ends => (earns.terminal t ends).trans (improved.terminal t ends).symm |>.le) raised
    fun t lasts => (improved.step t lasts).ge
  refine Finset.sum_lt_sum (fun t _ => above t) ⟨s, Finset.mem_univ s, ?_⟩
  have value := improved.step s lasting
  rw [Function.update_self] at value
  rw [value]
  linarith [mean_mono stochastic.positive above s a]

variable [Archimedean K]

theorem least_attained (stochastic : P.Stochastic) (least : P.Least pay v) :
    ∃ d : P.Selection, P.Transient d ∧ P.Earns pay d v := by
  obtain ⟨d, binds, transient⟩ := exists_transient stochastic (binding_untrapped stochastic least)
  exact ⟨d, transient, least.dominates.terminal, fun s lasting => (binds s lasting).symm⟩

theorem least_total (stochastic : P.Stochastic) (least : P.Least P.reward v) :
    (∃ d : P.Selection, P.Transient d ∧ P.Totals d v) ∧
      ∀ e : P.Selection, P.Transient e → ∃ u, P.Totals e u ∧ ∀ s, u s ≤ v s := by
  refine ⟨?_, fun e transient => ?_⟩
  · obtain ⟨d, transient, earns⟩ := least_attained stochastic least
    exact ⟨d, transient, totals_of_earns stochastic transient earns⟩
  · have untrapped := (transient_iff_untrapped stochastic e).mp transient
    obtain ⟨u, earns⟩ := exists_earnings stochastic untrapped P.reward
    exact ⟨u, totals_of_earns stochastic transient earns,
      earns_le_of_dominates stochastic untrapped earns least.dominates⟩

theorem exists_least (stochastic : P.Stochastic) (transient : P.Transient d)
    (improvable : ∀ (e : P.Selection) (w : Fin n → K), P.Transient e → P.Earns pay e w →
      ∀ s a, ¬P.Terminal s → w s < pay s a + P.mean w s a → P.Transient (Function.update e s a)) :
    ∃ v, P.Least pay v := by
  classical
  have untrapped {e : P.Selection} (ends : P.Transient e) : P.Untrapped (P.only e) :=
    (transient_iff_untrapped stochastic e).mp ends
  have earnings (e : P.Selection) : ∃ w, P.Transient e → P.Earns pay e w := by
    by_cases ends : P.Transient e
    · obtain ⟨w, earns⟩ := exists_earnings stochastic (untrapped ends) pay
      exact ⟨w, fun _ => earns⟩
    · exact ⟨0, fun other => absurd other ends⟩
  choose value earns using earnings
  obtain ⟨best, member, greatest⟩ := Finset.exists_max_image
    (Finset.univ.filter fun e : P.Selection => P.Transient e) (fun e => ∑ s, value e s)
    ⟨d, Finset.mem_filter.mpr ⟨Finset.mem_univ d, transient⟩⟩
  have ends : P.Transient best := (Finset.mem_filter.mp member).2
  have dominates : P.Dominates pay (value best) := by
    refine ⟨(earns best ends).terminal, fun s lasting a => ?_⟩
    by_contra beaten
    have again := improvable best (value best) ends (earns best ends) s a lasting (not_le.mp beaten)
    have more := earns_update stochastic (earns best ends) lasting (not_le.mp beaten) (untrapped again)
      (earns _ again)
    exact more.not_ge (greatest _ (Finset.mem_filter.mpr ⟨Finset.mem_univ _, again⟩))
  refine ⟨value best, dominates, fun u other => Finset.sum_le_sum fun s _ => ?_⟩
  exact earns_le_of_dominates stochastic (untrapped ends) (earns best ends) other s

theorem exists_least_of_all (stochastic : P.Stochastic) (all : ∀ d, P.Transient d) (pay : P.Tariff) :
    ∃ v, P.Least pay v :=
  exists_least stochastic (all fun s => ⟨0, P.hasAction s⟩) fun _ _ _ _ _ _ _ _ => all _

end Optimum

section Time

variable [Archimedean K]

-- Counting every step as a loss of one, the losses of an improvement stay finite.
theorem some_transient_iff (stochastic : P.Stochastic) :
    (∃ v, P.Least (fun _ _ => -1) v) ↔ ∃ d : P.Selection, P.Transient d := by
  constructor
  · rintro ⟨v, least⟩
    obtain ⟨d, transient, _⟩ := least_attained stochastic least
    exact ⟨d, transient⟩
  · rintro ⟨d, transient⟩
    refine exists_least stochastic transient fun e w ends earns s a lasting better => ?_
    have losses : ∀ t, w t ≤ 0 := nonpos_of_mean stochastic ((transient_iff_untrapped stochastic e).mp ends)
      (fun t stops => (earns.terminal t stops).le) fun t lasts => by
        linarith [earns.step t lasts]
    refine transient_of_falling (v := -w) stochastic (fun t => neg_nonneg.mpr (losses t)) fun t lasts => ?_
    rw [mean_neg, Pi.neg_apply]
    by_cases here : t = s
    · subst here
      rw [Function.update_self]
      linarith
    · rw [Function.update_of_ne here]
      linarith [earns.step t lasts]

-- A vector that falls by one whatever is done bounds the time of every selection.
theorem every_transient_iff (stochastic : P.Stochastic) :
    (∃ v, P.Least (fun _ _ => 1) v) ↔ ∀ d : P.Selection, P.Transient d := by
  refine ⟨?_, fun all => exists_least_of_all stochastic all _⟩
  rintro ⟨v, least⟩ d
  have nonneg : ∀ s, 0 ≤ v s := by
    intro s
    obtain ⟨low, _, lowest⟩ := Finset.exists_min_image Finset.univ v ⟨s, Finset.mem_univ s⟩
    have bound : ∀ t, v low ≤ v t := fun t => lowest t (Finset.mem_univ t)
    by_cases ends : P.Terminal low
    · rw [← least.dominates.terminal low ends]
      exact bound s
    · have falls := least.dominates.step low ends (d low)
      linarith [mean_ge stochastic bound low (d low)]
  exact transient_of_falling stochastic nonneg fun s lasting => least.dominates.step s lasting (d s)

end Time

theorem departing_least : departing.Least departing.reward ![2, 0] := by
  refine ⟨⟨by decide +kernel, by decide +kernel⟩, fun u dominates => ?_⟩
  let leave : Fin (departing.actionCount 0) := ⟨1, by decide⟩
  have ends : u 1 = 0 := dominates.terminal 1 (by decide +kernel)
  have worth := dominates.step 0 (by decide +kernel) leave
  have pays : departing.reward 0 leave = 2 := by decide +kernel
  have moves : departing.mean u 0 leave = u 1 := by simp [mean, departing, leave]
  rw [pays, moves, ends] at worth
  simpa [Fin.sum_univ_two, ends] using worth

end Process

end MarkovDecision
