import MarkovDecision.Proofs.Process.Discounted

namespace MarkovDecision

deriving instance DecidableEq for Branch

namespace Process

variable {n : Nat} {K : Type} [Field K]

def Terminal (P : Process n K) (s : Fin n) : Prop :=
  P.actionCount s = 1 ∧ P.branches s ⟨0, P.hasAction s⟩ = [⟨s, 1, 0⟩]

abbrev Choices (P : Process n K) : Type := (s : Fin n) → Fin (P.actionCount s) → Prop

def only (P : Process n K) (d : P.Selection) : P.Choices := fun s a => a = d s

-- A set of states without terminal ones that no action of the choices leaves.
structure Trap (P : Process n K) (choices : P.Choices) (A : Set (Fin n)) : Prop where
  lasting : ∀ s ∈ A, ¬P.Terminal s
  closed : ∀ s ∈ A, ∀ a, choices s a → ∀ b ∈ P.branches s a, b.next ∈ A

def Untrapped (P : Process n K) (choices : P.Choices) : Prop := ∀ A, P.Trap choices A → A = ∅

inductive Reaches (P : Process n K) (choices : P.Choices) : Nat → Fin n → Prop where
  | terminal {s : Fin n} : P.Terminal s → Reaches P choices 0 s
  | step {k : Nat} {s : Fin n} {a : Fin (P.actionCount s)} {b : Branch n K} :
    choices s a → b ∈ P.branches s a → Reaches P choices k b.next → Reaches P choices (k + 1) s

section Terminal

variable {P : Process n K} {s : Fin n}

theorem branches_terminal (terminal : P.Terminal s) (a : Fin (P.actionCount s)) :
    P.branches s a = [⟨s, 1, 0⟩] := by
  have only : a = ⟨0, P.hasAction s⟩ := Fin.ext (by have := a.isLt; have := terminal.1; omega)
  rw [only]
  exact terminal.2

theorem mean_terminal (terminal : P.Terminal s) (v : Fin n → K) (a : Fin (P.actionCount s)) :
    P.mean v s a = v s := by
  rw [mean, branches_terminal terminal a]
  simp

theorem reward_terminal (terminal : P.Terminal s) (a : Fin (P.actionCount s)) : P.reward s a = 0 := by
  rw [reward, branches_terminal terminal a]
  simp

theorem mean_add (u v : Fin n → K) (s : Fin n) (a : Fin (P.actionCount s)) :
    P.mean (u + v) s a = P.mean u s a + P.mean v s a := by
  unfold mean
  rw [← List.sum_map_add]
  exact congrArg List.sum (List.map_congr_left fun b _ => by rw [Pi.add_apply, mul_add])

theorem mean_sum (f : Nat → Fin n → K) (k : Nat) (s : Fin n) (a : Fin (P.actionCount s)) :
    P.mean (fun t => ∑ i ∈ Finset.range k, f i t) s a = ∑ i ∈ Finset.range k, P.mean (f i) s a := by
  induction k with
  | zero => simp [mean]
  | succ k ih =>
    rw [Finset.sum_range_succ, ← ih, ← mean_add]
    exact congrArg (P.mean · s a) (funext fun t => Finset.sum_range_succ _ k)

theorem reaches_of_untrapped {choices : P.Choices} (untrapped : P.Untrapped choices) (s : Fin n) :
    ∃ k, P.Reaches choices k s := by
  have trap : P.Trap choices {t | ∀ k, ¬P.Reaches choices k t} := by
    refine ⟨fun t stuck terminal => stuck 0 (.terminal terminal), fun t stuck a chosen b listed k later => ?_⟩
    exact stuck (k + 1) (.step chosen listed later)
  by_contra stuck
  have member : s ∈ {t | ∀ k, ¬P.Reaches choices k t} := not_exists.mp stuck
  rw [untrapped _ trap] at member
  exact member

end Terminal

variable [LinearOrder K]

instance (P : Process n K) : DecidablePred P.Terminal := fun _ => inferInstanceAs (Decidable (_ ∧ _))

def alive (P : Process n K) (d : P.Selection) : Nat → Fin n → K
  | 0, s => if P.Terminal s then 0 else 1
  | k + 1, s => if P.Terminal s then 0 else P.mean (alive P d k) s (d s)

def Transient (P : Process n K) (d : P.Selection) : Prop :=
  ∀ s, ∃ bound, ∀ k, ∑ i ∈ Finset.range k, P.alive d i s ≤ bound

abbrev Tariff (P : Process n K) : Type := (s : Fin n) → Fin (P.actionCount s) → K

structure Earns (P : Process n K) (pay : P.Tariff) (d : P.Selection) (v : Fin n → K) : Prop where
  terminal : ∀ s, P.Terminal s → v s = 0
  step : ∀ s, ¬P.Terminal s → v s = pay s (d s) + P.mean v s (d s)

variable {P : Process n K} {d : P.Selection} {choices : P.Choices} {pay : P.Tariff} {u v : Fin n → K}

theorem alive_terminal {s : Fin n} (terminal : P.Terminal s) (k : Nat) : P.alive d k s = 0 := by
  cases k <;> exact if_pos terminal

theorem alive_next {s : Fin n} (lasting : ¬P.Terminal s) (k : Nat) :
    P.alive d (k + 1) s = P.mean (P.alive d k) s (d s) := if_neg lasting

variable [IsStrictOrderedRing K]

section Averages

theorem eq_of_mean (stochastic : P.Stochastic) {c : K} (bound : ∀ t, v t ≤ c) {s : Fin n}
    {a : Fin (P.actionCount s)} (attained : c ≤ P.mean v s a) :
    ∀ b ∈ P.branches s a, v b.next = c := by
  intro b member
  by_contra other
  have less : P.mean v s a < P.mean (fun _ => c) s a := by
    refine List.sum_lt_sum _ _ (fun b' listed => ?_) ⟨b, member, ?_⟩
    · exact mul_le_mul_of_nonneg_left (bound b'.next) (stochastic.positive s a b' listed).le
    · exact mul_lt_mul_of_pos_left (lt_of_le_of_ne (bound b.next) other)
        (stochastic.positive s a b member)
  rw [mean_const stochastic] at less
  exact less.not_ge attained

end Averages

section Traps

-- A vector that no step lowers has its maximum at a terminal state, or on a trap.
theorem nonpos_of_mean (stochastic : P.Stochastic) (untrapped : P.Untrapped (P.only d))
    (terminal : ∀ s, P.Terminal s → v s ≤ 0) (step : ∀ s, ¬P.Terminal s → v s ≤ P.mean v s (d s))
    (s : Fin n) : v s ≤ 0 := by
  obtain ⟨top, _, greatest⟩ := Finset.exists_max_image Finset.univ v ⟨s, Finset.mem_univ s⟩
  have bound : ∀ t, v t ≤ v top := fun t => greatest t (Finset.mem_univ t)
  by_contra above
  have positive : 0 < v top := (not_le.mp above).trans_le (bound s)
  have lasting : ∀ t ∈ {t | v t = v top}, ¬P.Terminal t := by
    intro t member ends
    have low := terminal t ends
    rw [show v t = v top from member] at low
    exact low.not_gt positive
  have trap : P.Trap (P.only d) {t | v t = v top} := by
    refine ⟨lasting, fun t member a chosen b listed => ?_⟩
    have rises := step t (lasting t member)
    rw [show v t = v top from member, ← show a = d t from chosen] at rises
    exact eq_of_mean stochastic bound rises b listed
  have member : top ∈ {t | v t = v top} := rfl
  rw [untrapped _ trap] at member
  exact member

theorem le_of_untrapped (stochastic : P.Stochastic) (untrapped : P.Untrapped (P.only d))
    (terminal : ∀ s, P.Terminal s → u s ≤ v s)
    (raised : ∀ s, ¬P.Terminal s → u s ≤ pay s (d s) + P.mean u s (d s))
    (lowered : ∀ s, ¬P.Terminal s → pay s (d s) + P.mean v s (d s) ≤ v s) (s : Fin n) : u s ≤ v s := by
  have difference := nonpos_of_mean (v := u - v) stochastic untrapped
    (fun t ends => by
      rw [Pi.sub_apply]
      exact sub_nonpos.mpr (terminal t ends))
    (fun t lasting => by
      rw [Pi.sub_apply, mean_sub]
      linarith [raised t lasting, lowered t lasting]) s
  exact sub_nonpos.mp difference

theorem exists_earnings (stochastic : P.Stochastic) (untrapped : P.Untrapped (P.only d))
    (pay : P.Tariff) : ∃ v, P.Earns pay d v := by
  let residue : (Fin n → K) →ₗ[K] (Fin n → K) :=
    { toFun := fun v s => if P.Terminal s then v s else v s - P.mean v s (d s)
      map_add' := by
        intro u v
        funext s
        simp only [Pi.add_apply, mean_add]
        split <;> ring
      map_smul' := by
        intro c v
        funext s
        simp only [mean_smul, Pi.smul_apply, smul_eq_mul, RingHom.id_apply]
        split <;> ring }
  have kernel : ∀ v, residue v = 0 → ∀ s, v s ≤ 0 := by
    intro v zero
    have balance (t : Fin n) : (if P.Terminal t then v t else v t - P.mean v t (d t)) = 0 :=
      congrFun zero t
    refine nonpos_of_mean stochastic untrapped (fun t ends => ?_) fun t lasting => ?_
    · have here := balance t
      rw [if_pos ends] at here
      exact here.le
    · have here := balance t
      rw [if_neg lasting] at here
      exact (sub_eq_zero.mp here).le
  have injective : Function.Injective residue := (injective_iff_map_eq_zero residue).mpr fun v zero => by
    funext s
    have opposite := kernel (-v) (by rw [map_neg, zero, neg_zero]) s
    exact le_antisymm (kernel v zero s) (neg_nonpos.mp opposite)
  obtain ⟨v, solved⟩ := LinearMap.injective_iff_surjective.mp injective
    fun s => if P.Terminal s then 0 else pay s (d s)
  have balance (s : Fin n) : (if P.Terminal s then v s else v s - P.mean v s (d s))
      = if P.Terminal s then 0 else pay s (d s) := congrFun solved s
  refine ⟨v, fun s ends => ?_, fun s lasting => ?_⟩
  · have here := balance s
    rwa [if_pos ends, if_pos ends] at here
  · have here := balance s
    rw [if_neg lasting, if_neg lasting] at here
    linarith

end Traps

section Transience

-- A quantity that falls by one in expectation with each step bounds the time there is.
theorem transient_of_falling (stochastic : P.Stochastic) (nonneg : ∀ s, 0 ≤ v s)
    (falls : ∀ s, ¬P.Terminal s → 1 + P.mean v s (d s) ≤ v s) : P.Transient d := by
  have bounds : ∀ k s, ∑ i ∈ Finset.range k, P.alive d i s ≤ v s := by
    intro k
    induction k with
    | zero => exact nonneg
    | succ k ih =>
      intro s
      by_cases ends : P.Terminal s
      · rw [Finset.sum_eq_zero fun i _ => alive_terminal ends i]
        exact nonneg s
      · have split : ∑ i ∈ Finset.range k, P.alive d (i + 1) s
            = P.mean (fun t => ∑ i ∈ Finset.range k, P.alive d i t) s (d s) := by
          rw [mean_sum]
          exact Finset.sum_congr rfl fun i _ => alive_next ends i
        rw [Finset.sum_range_succ', split, add_comm]
        have first : P.alive d 0 s = 1 := if_neg ends
        have later := mean_mono stochastic.positive ih s (d s)
        rw [first]
        linarith [falls s ends]
  exact fun s => ⟨v s, fun k => bounds k s⟩

variable [Archimedean K]

theorem untrapped_of_transient (stochastic : P.Stochastic) (transient : P.Transient d) :
    P.Untrapped (P.only d) := by
  intro A trap
  refine Set.eq_empty_iff_forall_notMem.mpr fun s member => ?_
  have sure : ∀ k, ∀ t ∈ A, P.alive d k t = 1 := by
    intro k
    induction k with
    | zero => exact fun t inside => if_neg (trap.lasting t inside)
    | succ k ih =>
      intro t inside
      rw [alive_next (trap.lasting t inside), ← mean_const stochastic 1 t (d t)]
      refine congrArg List.sum (List.map_congr_left fun b listed => ?_)
      rw [ih b.next (trap.closed t inside (d t) rfl b listed)]
  obtain ⟨bound, bounds⟩ := transient s
  obtain ⟨k, large⟩ := exists_nat_gt bound
  have all := bounds k
  rw [Finset.sum_congr rfl fun i _ => sure i s member] at all
  simp only [Finset.sum_const, Finset.card_range, nsmul_eq_mul, mul_one] at all
  exact large.not_ge all

theorem transient_iff_untrapped (stochastic : P.Stochastic) (d : P.Selection) :
    P.Transient d ↔ P.Untrapped (P.only d) := by
  refine ⟨untrapped_of_transient stochastic, fun untrapped => ?_⟩
  let clock : P.Tariff := fun _ _ => 1
  obtain ⟨v, earns⟩ := exists_earnings stochastic untrapped clock
  have start (s : Fin n) : 0 ≤ clock s (d s) + P.mean 0 s (d s) := by
    rw [show P.mean 0 s (d s) = 0 from mean_const stochastic 0 s (d s), add_zero]
    exact zero_le_one
  have nonneg : ∀ s, 0 ≤ v s := le_of_untrapped stochastic untrapped
    (fun s ends => (earns.terminal s ends).ge) (fun s _ => start s) fun s lasting => (earns.step s lasting).ge
  exact transient_of_falling stochastic nonneg fun s lasting => (earns.step s lasting).ge

-- Choices that have no trap contain a selection that has none: it always steps nearer to the
-- terminal states.
theorem exists_transient (stochastic : P.Stochastic) (untrapped : P.Untrapped choices) :
    ∃ d : P.Selection, (∀ s, ¬P.Terminal s → choices s (d s)) ∧ P.Transient d := by
  classical
  have reached := reaches_of_untrapped untrapped
  let distance (s : Fin n) : Nat := Nat.find (reached s)
  have nearer (s : Fin n) : ∃ a, ¬P.Terminal s →
      choices s a ∧ ∃ b ∈ P.branches s a, distance b.next < distance s := by
    have found := Nat.find_spec (reached s)
    cases count : Nat.find (reached s) with
    | zero =>
      rw [count] at found
      cases found with
      | terminal ends => exact ⟨⟨0, P.hasAction s⟩, fun lasting => absurd ends lasting⟩
    | succ k =>
      rw [count] at found
      cases found with
      | @step _ _ a b chosen listed later =>
        refine ⟨a, fun _ => ⟨chosen, b, listed, ?_⟩⟩
        have near := Nat.find_min' (reached b.next) later
        change Nat.find (reached b.next) < Nat.find (reached s)
        omega
  choose d steps using nearer
  refine ⟨d, fun s lasting => (steps s lasting).1, (transient_iff_untrapped stochastic d).mpr ?_⟩
  intro A trap
  refine Set.eq_empty_iff_forall_notMem.mpr fun s member => ?_
  -- a nearest state of a trap would lead out of it
  obtain ⟨near, inside, nearest⟩ := Set.exists_min_image A distance A.toFinite ⟨s, member⟩
  obtain ⟨_, b, listed, shorter⟩ := steps near (trap.lasting near inside)
  exact (nearest b.next (trap.closed near inside (d near) rfl b listed)).not_gt shorter

end Transience

theorem departing_transient (d : departing.Selection) : departing.Transient d := by
  have falls : ∀ (d : departing.Selection) (s : Fin 2), ¬departing.Terminal s →
      1 + departing.mean ![2, 0] s (d s) ≤ ![2, 0] s := by decide +kernel
  exact transient_of_falling departing_stochastic (by decide +kernel) (falls d)

end Process

end MarkovDecision
