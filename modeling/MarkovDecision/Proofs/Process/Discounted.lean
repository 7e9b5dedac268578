import MarkovDecision.Proofs.Process.Basic

namespace MarkovDecision

def IsUniqueFixpoint {n : Nat} {K : Type} (T : (Fin n → K) → Fin n → K) (v : Fin n → K) : Prop :=
  ∀ u, T u = u ↔ u = v

def Contracts {n : Nat} {K : Type} [Field K] [LinearOrder K] (γ : K)
    (T : (Fin n → K) → Fin n → K) : Prop :=
  ∀ u v b, (∀ s, |u s - v s| ≤ b) → ∀ s, |T u s - T v s| ≤ γ * b

-- What one vector has more than another is γ times as much after one step, also where it is negative.
def Dampens {n : Nat} {K : Type} [Field K] [LinearOrder K] (γ : K)
    (T : (Fin n → K) → Fin n → K) : Prop :=
  ∀ u v b, (∀ s, u s - v s ≤ b) → ∀ s, T u s - T v s ≤ γ * b

section Contraction

variable {n : Nat} {K : Type} [Field K] [LinearOrder K] [IsStrictOrderedRing K] {γ b low high : K}
  {T : (Fin n → K) → Fin n → K} {u v best : Fin n → K}

theorem Dampens.contracts (dampens : Dampens γ T) : Contracts γ T := by
  intro u v b close s
  have back := dampens v u b (fun t => by linarith [(abs_le.mp (close t)).1]) s
  exact abs_le.mpr ⟨by linarith, dampens u v b (fun t => (abs_le.mp (close t)).2) s⟩

-- Where the excess e of u over v is greatest, e ≤ γ e + b.
theorem Dampens.excess (dampens : Dampens γ T) (below : γ < 1)
    (step : ∀ s, u s - v s ≤ T u s - T v s + b) (s : Fin n) : u s - v s ≤ b / (1 - γ) := by
  obtain ⟨most, _, greatest⟩ := Finset.exists_max_image Finset.univ (fun t => u t - v t)
    ⟨s, Finset.mem_univ s⟩
  have here := greatest s (Finset.mem_univ s)
  have damped := dampens u v (u most - v most) (fun t => greatest t (Finset.mem_univ t)) most
  have bound := step most
  rw [le_div_iff₀ (by linarith)]
  have scaled := mul_le_mul_of_nonneg_right here (by linarith : (0 : K) ≤ 1 - γ)
  linarith

-- One step after a change between low and high, the fixed point lies between γ low / (1 - γ) and
-- γ high / (1 - γ) above.
theorem Dampens.fixpoint_le (dampens : Dampens γ T) (below : γ < 1) (fixed : T best = best)
    (change : ∀ s, T u s - u s ≤ high) (s : Fin n) : best s - T u s ≤ γ * high / (1 - γ) :=
  dampens.excess below (fun t => by linarith [congrFun fixed t, dampens (T u) u high change t]) s

theorem Dampens.le_fixpoint (dampens : Dampens γ T) (below : γ < 1) (fixed : T best = best)
    (change : ∀ s, low ≤ T u s - u s) (s : Fin n) : T u s - best s ≤ γ * -low / (1 - γ) :=
  dampens.excess below (fun t => by
    linarith [congrFun fixed t, dampens u (T u) (-low) (fun x => by linarith [change x]) t]) s

-- At a state where the distance d is greatest, d ≤ b + γ d.
theorem Contracts.distance (contracts : Contracts γ T) (below : γ < 1) (fixed : T best = best)
    (change : ∀ s, |T v s - v s| ≤ b) (s : Fin n) : |v s - best s| ≤ b / (1 - γ) := by
  obtain ⟨worst, _, greatest⟩ := Finset.exists_max_image Finset.univ (fun t => |v t - best t|)
    ⟨s, Finset.mem_univ s⟩
  have shrunk := contracts v best |v worst - best worst| (fun t => greatest t (Finset.mem_univ t)) worst
  rw [fixed] at shrunk
  have split : |v worst - best worst| ≤ |T v worst - v worst| + |T v worst - best worst| := by
    have triangle := abs_sub_le (v worst) (T v worst) (best worst)
    rwa [abs_sub_comm (v worst) (T v worst)] at triangle
  have bound := change worst
  rw [le_div_iff₀ (by linarith)]
  have here := greatest s (Finset.mem_univ s)
  have scaled := mul_le_mul_of_nonneg_right here (by linarith : (0 : K) ≤ 1 - γ)
  linarith

theorem Contracts.distance_next (contracts : Contracts γ T) (below : γ < 1) (fixed : T best = best)
    (change : ∀ s, |T v s - v s| ≤ b) (s : Fin n) : |T v s - best s| ≤ γ * b / (1 - γ) := by
  have shrunk := contracts v best _ (contracts.distance below fixed change) s
  rwa [fixed, ← mul_div_assoc] at shrunk

end Contraction

namespace Process

variable {n : Nat} {K : Type} [Field K] {P : Process n K} {γ : K} {w : P.Rule} {u v : Fin n → K}

def drift (P : Process n K) (w : P.Rule) (v : Fin n → K) (s : Fin n) : K := ∑ a, w s a * P.mean v s a

def ruleReward (P : Process n K) (w : P.Rule) (s : Fin n) : K := ∑ a, w s a * P.reward s a

theorem follow_eq (s : Fin n) : P.follow γ w v s = P.ruleReward w s + γ * P.drift w v s := by
  unfold follow ruleReward drift
  rw [Finset.mul_sum, ← Finset.sum_add_distrib]
  refine Finset.sum_congr rfl fun a _ => ?_
  rw [actionValue_eq]
  ring

theorem mean_sub (s : Fin n) (a : Fin (P.actionCount s)) :
    P.mean (u - v) s a = P.mean u s a - P.mean v s a := by
  unfold mean
  rw [eq_sub_iff_add_eq, ← List.sum_map_add]
  refine congrArg List.sum (List.map_congr_left fun b _ => ?_)
  rw [Pi.sub_apply]
  ring

theorem mean_smul (c : K) (s : Fin n) (a : Fin (P.actionCount s)) :
    P.mean (c • v) s a = c * P.mean v s a := by
  unfold mean
  rw [← List.sum_map_mul_left]
  refine congrArg List.sum (List.map_congr_left fun b _ => ?_)
  rw [Pi.smul_apply, smul_eq_mul]
  ring

theorem mean_neg (v : Fin n → K) (s : Fin n) (a : Fin (P.actionCount s)) : P.mean (-v) s a = -P.mean v s a := by
  rw [← neg_one_smul K v, mean_smul, neg_one_mul]

theorem mean_combination (c : Fin n → K) (u : Fin n → Fin n → K) (s : Fin n) (a : Fin (P.actionCount s)) :
    P.mean (fun t => ∑ i, c i * u i t) s a = ∑ i, c i * P.mean (u i) s a := by
  unfold mean
  induction P.branches s a with
  | nil => simp
  | cons b rest ih =>
    rw [List.map_cons, List.sum_cons, ih, Finset.mul_sum, ← Finset.sum_add_distrib]
    refine Finset.sum_congr rfl fun i _ => ?_
    rw [List.map_cons, List.sum_cons]
    ring

theorem drift_sub (s : Fin n) : P.drift w (u - v) s = P.drift w u s - P.drift w v s := by
  simp only [drift, mean_sub, mul_sub, Finset.sum_sub_distrib]

theorem drift_smul (c : K) (s : Fin n) : P.drift w (c • v) s = c * P.drift w v s := by
  simp only [drift, mean_smul, Finset.mul_sum, mul_left_comm]

theorem follow_sub (s : Fin n) :
    P.follow γ w u s - P.follow γ w v s = γ * P.drift w (u - v) s := by
  rw [follow_eq, follow_eq, drift_sub]
  ring

noncomputable def value (P : Process n K) (γ : K) (w : P.Rule) : Fin n → K :=
  Classical.epsilon fun v => P.follow γ w v = v

variable [LinearOrder K]

theorem mean_const (stochastic : P.Stochastic) (c : K) (s : Fin n) (a : Fin (P.actionCount s)) :
    P.mean (fun _ => c) s a = c := by
  rw [mean, List.sum_map_mul_right, stochastic.total, one_mul]

theorem optimal_of_stable (improved : P.follow γ (P.sure (P.greedy γ v)) v = v) :
    P.bellman γ v = v := by rw [← follow_greedy, improved]

variable [IsStrictOrderedRing K]

theorem mean_mono (positive : P.Positive) (below : ∀ t, u t ≤ v t) (s : Fin n) (a : Fin (P.actionCount s)) :
    P.mean u s a ≤ P.mean v s a :=
  List.sum_le_sum fun b member => mul_le_mul_of_nonneg_left (below b.next) (positive s a b member).le

theorem abs_mean_le (positive : P.Positive) (bound : ∀ t, |v t| ≤ u t) (s : Fin n) (a : Fin (P.actionCount s)) :
    |P.mean v s a| ≤ P.mean u s a := by
  refine abs_le.mpr ⟨?_, mean_mono positive (fun t => (abs_le.mp (bound t)).2) s a⟩
  rw [← mean_neg]
  exact mean_mono positive (fun t => (abs_le.mp (bound t)).1) s a

theorem mean_le (stochastic : P.Stochastic) {b : K} (bound : ∀ t, v t ≤ b) (s : Fin n)
    (a : Fin (P.actionCount s)) : P.mean v s a ≤ b :=
  (mean_mono stochastic.positive bound s a).trans_eq (mean_const stochastic b s a)

theorem mean_ge (stochastic : P.Stochastic) {b : K} (bound : ∀ t, b ≤ v t) (s : Fin n)
    (a : Fin (P.actionCount s)) : b ≤ P.mean v s a :=
  (mean_const stochastic b s a).symm.trans_le (mean_mono stochastic.positive bound s a)

theorem drift_ge (stochastic : P.Stochastic) (distribution : P.IsDistribution w) {b : K}
    (bound : ∀ t, b ≤ v t) (s : Fin n) : b ≤ P.drift w v s := by
  calc b = ∑ a, w s a * b := by rw [← Finset.sum_mul, distribution.total, one_mul]
    _ ≤ P.drift w v s := Finset.sum_le_sum fun a _ =>
        mul_le_mul_of_nonneg_left (mean_ge stochastic bound s a) (distribution.nonneg s a)

theorem actionValue_dampens (stochastic : P.Stochastic) (nonneg : 0 ≤ γ) {b : K}
    (more : ∀ t, u t - v t ≤ b) (s : Fin n) (a : Fin (P.actionCount s)) :
    P.actionValue γ u s a - P.actionValue γ v s a ≤ γ * b := by
  have difference : P.actionValue γ u s a - P.actionValue γ v s a = γ * P.mean (u - v) s a := by
    rw [actionValue_eq, actionValue_eq, mean_sub]
    ring
  rw [difference]
  exact mul_le_mul_of_nonneg_left (mean_le stochastic more s a) nonneg

theorem follow_dampens (stochastic : P.Stochastic) (distribution : P.IsDistribution w)
    (nonneg : 0 ≤ γ) : Dampens γ (P.follow γ w) := by
  intro u v b more s
  have split : P.follow γ w u s - P.follow γ w v s
      = ∑ a, w s a * (P.actionValue γ u s a - P.actionValue γ v s a) := by
    simp only [follow, mul_sub, Finset.sum_sub_distrib]
  rw [split]
  calc ∑ a, w s a * (P.actionValue γ u s a - P.actionValue γ v s a)
      ≤ ∑ a, w s a * (γ * b) := Finset.sum_le_sum fun a _ =>
        mul_le_mul_of_nonneg_left (actionValue_dampens stochastic nonneg more s a)
          (distribution.nonneg s a)
    _ = γ * b := by rw [← Finset.sum_mul, distribution.total, one_mul]

theorem bellman_dampens (stochastic : P.Stochastic) (nonneg : 0 ≤ γ) : Dampens γ (P.bellman γ) := by
  intro u v b more s
  have same := actionValue_dampens stochastic nonneg more s (P.greedy γ u s)
  have other := actionValue_le_bellman (γ := γ) (v := v) (P.greedy γ u s)
  rw [actionValue_greedy] at same
  linarith

theorem follow_contracts (stochastic : P.Stochastic) (distribution : P.IsDistribution w)
    (nonneg : 0 ≤ γ) : Contracts γ (P.follow γ w) :=
  (follow_dampens stochastic distribution nonneg).contracts

theorem bellman_contracts (stochastic : P.Stochastic) (nonneg : 0 ≤ γ) :
    Contracts γ (P.bellman γ) := (bellman_dampens stochastic nonneg).contracts

theorem nonneg_of_drift (stochastic : P.Stochastic) (distribution : P.IsDistribution w)
    (nonneg : 0 ≤ γ) (below : γ < 1) (above : ∀ s, γ * P.drift w v s ≤ v s) (s : Fin n) : 0 ≤ v s := by
  obtain ⟨low, _, least⟩ := Finset.exists_min_image Finset.univ v ⟨s, Finset.mem_univ s⟩
  have drifts := drift_ge stochastic distribution (fun t => least t (Finset.mem_univ t)) low
  have self : γ * v low ≤ v low := (mul_le_mul_of_nonneg_left drifts nonneg).trans (above low)
  have floor : 0 ≤ v low := by
    by_contra negative
    have strict : v low * 1 < v low * γ := mul_lt_mul_of_neg_left below (not_le.mp negative)
    linarith
  exact floor.trans (least s (Finset.mem_univ s))

theorem le_of_follow (stochastic : P.Stochastic) (distribution : P.IsDistribution w)
    (nonneg : 0 ≤ γ) (below : γ < 1) (raised : ∀ s, u s ≤ P.follow γ w u s)
    (lowered : ∀ s, P.follow γ w v s ≤ v s) (s : Fin n) : u s ≤ v s := by
  have difference := nonneg_of_drift stochastic distribution nonneg below (v := v - u) (fun t => by
    rw [← follow_sub, Pi.sub_apply]
    exact sub_le_sub (lowered t) (raised t)) s
  exact sub_nonneg.mp difference

theorem drift_kernel (stochastic : P.Stochastic) (distribution : P.IsDistribution w) (nonneg : 0 ≤ γ)
    (below : γ < 1) (balance : ∀ s, v s = γ * P.drift w v s) : v = 0 := by
  have lower := nonneg_of_drift stochastic distribution nonneg below (fun s => (balance s).ge)
  have upper := nonneg_of_drift stochastic distribution nonneg below (v := (-1 : K) • v) (fun s => by
    rw [drift_smul, Pi.smul_apply, smul_eq_mul]
    linarith [balance s])
  funext s
  change v s = 0
  have sign := upper s
  rw [Pi.smul_apply, smul_eq_mul] at sign
  exact le_antisymm (by linarith) (lower s)

theorem value_unique (stochastic : P.Stochastic) (distribution : P.IsDistribution w) (nonneg : 0 ≤ γ)
    (below : γ < 1) (first : P.follow γ w u = u) (second : P.follow γ w v = v) : u = v := by
  funext s
  exact le_antisymm
    (le_of_follow stochastic distribution nonneg below (fun t => (congrFun first t).ge)
      (fun t => (congrFun second t).le) s)
    (le_of_follow stochastic distribution nonneg below (fun t => (congrFun second t).ge)
      (fun t => (congrFun first t).le) s)

theorem exists_value (stochastic : P.Stochastic) (distribution : P.IsDistribution w)
    (nonneg : 0 ≤ γ) (below : γ < 1) : ∃ v, IsUniqueFixpoint (P.follow γ w) v := by
  let residue : (Fin n → K) →ₗ[K] (Fin n → K) :=
    { toFun := fun v s => v s - γ * P.drift w v s
      map_add' := by
        intro u v
        funext s
        have split := drift_sub (P := P) (w := w) (u := u + v) (v := v) s
        rw [add_sub_cancel_right] at split
        simp only [Pi.add_apply]
        rw [split]
        ring
      map_smul' := by
        intro c v
        funext s
        simp only [drift_smul, Pi.smul_apply, smul_eq_mul, RingHom.id_apply]
        ring }
  have injective : Function.Injective residue :=
    (injective_iff_map_eq_zero residue).mpr fun v zero =>
      drift_kernel stochastic distribution nonneg below fun s => sub_eq_zero.mp (congrFun zero s)
  obtain ⟨v, solved⟩ := LinearMap.injective_iff_surjective.mp injective (P.ruleReward w)
  have fixed : P.follow γ w v = v := by
    funext s
    have balance : v s - γ * P.drift w v s = P.ruleReward w s := congrFun solved s
    rw [follow_eq]
    linarith
  refine ⟨v, fun u => ⟨fun stays => ?_, fun same => by rw [same, fixed]⟩⟩
  exact value_unique stochastic distribution nonneg below stays fixed

theorem value_follow (stochastic : P.Stochastic) (distribution : P.IsDistribution w)
    (nonneg : 0 ≤ γ) (below : γ < 1) : P.follow γ w (P.value γ w) = P.value γ w := by
  obtain ⟨v, fixpoint⟩ := exists_value stochastic distribution nonneg below
  exact Classical.epsilon_spec (p := fun u => P.follow γ w u = u) ⟨v, (fixpoint v).mpr rfl⟩

theorem improvement (stochastic : P.Stochastic) (distribution : P.IsDistribution w)
    (nonneg : 0 ≤ γ) (below : γ < 1) (value : P.follow γ w v = v)
    (improved : P.follow γ (P.sure (P.greedy γ v)) u = u) (s : Fin n) : v s ≤ u s :=
  le_of_follow stochastic (sure_distribution P _) nonneg below
    (fun t => by
      rw [follow_greedy]
      calc v t = P.follow γ w v t := (congrFun value t).symm
        _ ≤ P.bellman γ v t := follow_le_bellman distribution)
    (fun t => (congrFun improved t).le) s

theorem rule_le_optimal (stochastic : P.Stochastic) (distribution : P.IsDistribution w)
    (nonneg : 0 ≤ γ) (below : γ < 1) (optimal : P.bellman γ v = v) (value : P.follow γ w u = u)
    (s : Fin n) : u s ≤ v s :=
  le_of_follow stochastic distribution nonneg below (fun t => (congrFun value t).ge)
    (fun t => (follow_le_bellman distribution).trans (congrFun optimal t).le) s

theorem optimal_unique (stochastic : P.Stochastic) (nonneg : 0 ≤ γ) (below : γ < 1)
    (first : P.bellman γ u = u) (second : P.bellman γ v = v) : u = v := by
  funext s
  have one : P.follow γ (P.sure (P.greedy γ u)) u = u := by rw [follow_greedy, first]
  have two : P.follow γ (P.sure (P.greedy γ v)) v = v := by rw [follow_greedy, second]
  exact le_antisymm (rule_le_optimal stochastic (sure_distribution P _) nonneg below second one s)
    (rule_le_optimal stochastic (sure_distribution P _) nonneg below first two s)

theorem greedy_value_close {ε : K} (stochastic : P.Stochastic) (nonneg : 0 ≤ γ) (below : γ < 1)
    {u x : Fin n → K} {r : K} (change : ∀ s, |P.bellman γ u s - u s| ≤ r) (small : γ * r ≤ ε * (1 - γ))
    (value : P.follow γ (P.sure (P.greedy γ (P.bellman γ u))) x = x) (s : Fin n) :
    |P.bellman γ u s - x s| ≤ ε := by
  have next : ∀ t, |P.follow γ (P.sure (P.greedy γ (P.bellman γ u))) (P.bellman γ u) t
      - P.bellman γ u t| ≤ γ * r := by
    intro t
    rw [follow_greedy]
    exact bellman_contracts stochastic nonneg _ _ r change t
  have bound := (follow_contracts stochastic (P.sure_distribution _) nonneg).distance below
    value next s
  exact bound.trans ((div_le_iff₀ (by linarith)).mpr small)

-- Where a step adds almost the same to every state, taking the greedy actions is worth almost as much as
-- the best there is, however much that is.
theorem greedy_value_span {low high : K} (stochastic : P.Stochastic) (nonneg : 0 ≤ γ) (below : γ < 1)
    {u x best : Fin n → K} (change : ∀ s, low ≤ P.bellman γ u s - u s ∧ P.bellman γ u s - u s ≤ high)
    (fixed : P.bellman γ best = best)
    (value : P.follow γ (P.sure (P.greedy γ (P.bellman γ u))) x = x) (s : Fin n) :
    best s - x s ≤ γ * (high - low) / (1 - γ) := by
  have above := (bellman_dampens stochastic nonneg).fixpoint_le below fixed
    (fun t => (change t).2) s
  -- one greedy step from the values is what one more step of optimality makes of them
  have loses := (follow_dampens stochastic (P.sure_distribution (P.greedy γ (P.bellman γ u)))
    nonneg).excess (u := P.bellman γ u) (v := x) (b := γ * -low) below (fun t => by
      rw [follow_greedy, value]
      linarith [bellman_dampens stochastic nonneg u (P.bellman γ u) (-low)
        (fun y => by linarith [(change y).1]) t]) s
  have total : γ * (high - low) / (1 - γ) = γ * high / (1 - γ) + γ * -low / (1 - γ) := by ring
  linarith

-- Among the finitely many selections, one with the greatest total value cannot be improved.
theorem exists_optimal (stochastic : P.Stochastic) (nonneg : 0 ≤ γ) (below : γ < 1) :
    ∃ best, IsUniqueFixpoint (P.bellman γ) best := by
  choose value fixpoint using fun d : P.Selection =>
    exists_value stochastic (sure_distribution P d) nonneg below
  have fixed : ∀ d, P.follow γ (P.sure d) (value d) = value d := fun d => (fixpoint d _).mpr rfl
  obtain ⟨d, _, greatest⟩ := Finset.exists_max_image (Finset.univ : Finset P.Selection)
    (fun d => ∑ s, value d s) ⟨fun s => ⟨0, P.hasAction s⟩, Finset.mem_univ _⟩
  have better := improvement stochastic (sure_distribution P d) nonneg below (fixed d)
    (fixed (P.greedy γ (value d)))
  have same : value d = value (P.greedy γ (value d)) := by
    have total : ∑ s, value d s = ∑ s, value (P.greedy γ (value d)) s :=
      le_antisymm (Finset.sum_le_sum fun s _ => better s) (greatest _ (Finset.mem_univ _))
    funext s
    exact (Finset.sum_eq_sum_iff_of_le fun s _ => better s).mp total s (Finset.mem_univ s)
  have optimal : P.bellman γ (value d) = value d := by
    refine optimal_of_stable ?_
    have stable := fixed (P.greedy γ (value d))
    rwa [← same] at stable
  exact ⟨value d, fun u => ⟨fun stays => optimal_unique stochastic nonneg below stays optimal,
    fun equal => by rw [equal, optimal]⟩⟩

end Process

end MarkovDecision
