import Mathlib

namespace MarkovDecision

structure Branch (n : Nat) (K : Type) where
  next : Fin n
  probability : K
  reward : K

structure Process (n : Nat) (K : Type) where
  actionCount : Fin n → Nat
  hasAction : ∀ s, 0 < actionCount s
  branches : (s : Fin n) → Fin (actionCount s) → List (Branch n K)

namespace Process

variable {n : Nat} {K : Type}

abbrev Selection (P : Process n K) : Type := (s : Fin n) → Fin (P.actionCount s)

abbrev Rule (P : Process n K) : Type := (s : Fin n) → Fin (P.actionCount s) → K

def Unmerged (P : Process n K) : Prop := ∀ s a, ((P.branches s a).map Branch.next).Nodup

theorem actions_nonempty (P : Process n K) (s : Fin n) :
    (Finset.univ : Finset (Fin (P.actionCount s))).Nonempty := ⟨⟨0, P.hasAction s⟩, Finset.mem_univ _⟩

variable [Field K]

def sure (P : Process n K) (d : P.Selection) : P.Rule := fun s => Pi.single (d s) 1

def reward (P : Process n K) (s : Fin n) (a : Fin (P.actionCount s)) : K :=
  ((P.branches s a).map fun b => b.probability * b.reward).sum

def mean (P : Process n K) (v : Fin n → K) (s : Fin n) (a : Fin (P.actionCount s)) : K :=
  ((P.branches s a).map fun b => b.probability * v b.next).sum

def actionValue (P : Process n K) (γ : K) (v : Fin n → K) (s : Fin n) (a : Fin (P.actionCount s)) : K :=
  ((P.branches s a).map fun b => b.probability * (b.reward + γ * v b.next)).sum

def follow (P : Process n K) (γ : K) (w : P.Rule) (v : Fin n → K) (s : Fin n) : K :=
  ∑ a, w s a * P.actionValue γ v s a

variable {P : Process n K} {γ : K} {w : P.Rule} {u v : Fin n → K} {s : Fin n}

theorem actionValue_eq (a : Fin (P.actionCount s)) :
    P.actionValue γ v s a = P.reward s a + γ * P.mean v s a := by
  unfold actionValue reward mean
  rw [← List.sum_map_mul_left, ← List.sum_map_add]
  exact congrArg List.sum (List.map_congr_left fun b _ => by ring)

theorem follow_sure (d : P.Selection) : P.follow γ (P.sure d) v s = P.actionValue γ v s (d s) := by
  unfold follow sure
  rw [Finset.sum_eq_single (d s)]
  · rw [Pi.single_eq_same, one_mul]
  · intro a _ other
    rw [Pi.single_eq_of_ne other, zero_mul]
  · intro missing
    exact absurd (Finset.mem_univ _) missing

variable [LinearOrder K]

def Positive (P : Process n K) : Prop := ∀ s a, ∀ b ∈ P.branches s a, 0 < b.probability

structure Stochastic (P : Process n K) : Prop where
  positive : ∀ s a, ∀ b ∈ P.branches s a, 0 < b.probability
  total : ∀ s a, ((P.branches s a).map Branch.probability).sum = 1

structure IsDistribution (P : Process n K) (w : P.Rule) : Prop where
  nonneg : ∀ s a, 0 ≤ w s a
  total : ∀ s, ∑ a, w s a = 1

def bellman (P : Process n K) (γ : K) (v : Fin n → K) (s : Fin n) : K :=
  Finset.univ.sup' (P.actions_nonempty s) (P.actionValue γ v s)

theorem maximisers_nonempty (P : Process n K) (γ : K) (v : Fin n → K) (s : Fin n) :
    (Finset.univ.filter fun a => P.actionValue γ v s a = P.bellman γ v s).Nonempty := by
  obtain ⟨a, _, attained⟩ := Finset.exists_mem_eq_sup' (P.actions_nonempty s) (P.actionValue γ v s)
  exact ⟨a, Finset.mem_filter.mpr ⟨Finset.mem_univ _, attained.symm⟩⟩

-- The lowest of the actions with the greatest value.
def greedy (P : Process n K) (γ : K) (v : Fin n → K) : P.Selection := fun s =>
  (Finset.univ.filter fun a => P.actionValue γ v s a = P.bellman γ v s).min'
    (P.maximisers_nonempty γ v s)

theorem actionValue_le_bellman (a : Fin (P.actionCount s)) : P.actionValue γ v s a ≤ P.bellman γ v s :=
  Finset.le_sup' (P.actionValue γ v s) (Finset.mem_univ a)

theorem actionValue_greedy (P : Process n K) (γ : K) (v : Fin n → K) (s : Fin n) :
    P.actionValue γ v s (P.greedy γ v s) = P.bellman γ v s :=
  (Finset.mem_filter.mp (Finset.min'_mem _ (P.maximisers_nonempty γ v s))).2

theorem greedy_le {a : Fin (P.actionCount s)} (attained : P.actionValue γ v s a = P.bellman γ v s) :
    P.greedy γ v s ≤ a :=
  Finset.min'_le _ a (Finset.mem_filter.mpr ⟨Finset.mem_univ _, attained⟩)

theorem greedy_unique {b : Fin (P.actionCount s)}
    (greatest : ∀ a, P.actionValue γ v s a ≤ P.actionValue γ v s b)
    (first : ∀ a < b, P.actionValue γ v s a < P.actionValue γ v s b) :
    P.bellman γ v s = P.actionValue γ v s b ∧ P.greedy γ v s = b := by
  have attained : P.bellman γ v s = P.actionValue γ v s b :=
    le_antisymm (Finset.sup'_le _ _ fun a _ => greatest a) (actionValue_le_bellman b)
  refine ⟨attained, le_antisymm (greedy_le attained.symm) ?_⟩
  by_contra below
  have smaller := first _ (not_le.mp below)
  rw [actionValue_greedy, attained] at smaller
  exact lt_irrefl _ smaller

theorem follow_greedy (P : Process n K) (γ : K) (v : Fin n → K) :
    P.follow γ (P.sure (P.greedy γ v)) v = P.bellman γ v :=
  funext fun s => (follow_sure _).trans (actionValue_greedy P γ v s)

variable [IsStrictOrderedRing K]

theorem sure_distribution (P : Process n K) (d : P.Selection) : P.IsDistribution (P.sure d) := by
  refine ⟨?_, ?_⟩
  · intro s a
    unfold sure
    by_cases same : a = d s
    · rw [same, Pi.single_eq_same]; exact zero_le_one
    · rw [Pi.single_eq_of_ne same]
  · intro s
    exact Finset.sum_pi_single' (d s) (1 : K) Finset.univ |>.trans (if_pos (Finset.mem_univ _))

theorem follow_le_bellman (distribution : P.IsDistribution w) : P.follow γ w v s ≤ P.bellman γ v s := by
  calc P.follow γ w v s ≤ ∑ a, w s a * P.bellman γ v s :=
        Finset.sum_le_sum fun a _ =>
          mul_le_mul_of_nonneg_left (actionValue_le_bellman a) (distribution.nonneg s a)
    _ = P.bellman γ v s := by rw [← Finset.sum_mul, distribution.total, one_mul]

def leaving : Process 2 ℚ where
  actionCount _ := 2
  hasAction _ := Nat.two_pos
  branches s a :=
    if s = 0 then (if a = 0 then [⟨0, 1 / 2, 1⟩, ⟨1, 1 / 2, 0⟩] else [⟨1, 1, 2⟩]) else [⟨1, 1, 0⟩]

theorem leaving_stochastic : leaving.Stochastic := ⟨by decide +kernel, by decide +kernel⟩

theorem leaving_unmerged : leaving.Unmerged := by unfold Unmerged; decide +kernel

def departing : Process 2 ℚ where
  actionCount s := if s = 0 then 2 else 1
  hasAction s := by split <;> decide
  branches s a :=
    if s = 0 then (if (a : Nat) = 0 then [⟨0, 1 / 2, 1⟩, ⟨1, 1 / 2, 0⟩] else [⟨1, 1, 2⟩]) else [⟨1, 1, 0⟩]

theorem departing_stochastic : departing.Stochastic := ⟨by decide +kernel, by decide +kernel⟩

def lingering : Process 2 ℚ where
  actionCount s := if s = 0 then 2 else 1
  hasAction s := by split <;> decide
  branches s a := if s = 0 then (if (a : Nat) = 0 then [⟨0, 1, 0⟩] else [⟨1, 1, 2⟩]) else [⟨1, 1, 0⟩]

theorem lingering_stochastic : lingering.Stochastic := ⟨by decide +kernel, by decide +kernel⟩

def returning : Process 2 ℚ where
  actionCount _ := 1
  hasAction _ := Nat.one_pos
  branches s _ := if s = 0 then [⟨1, 1 / 4, 2⟩, ⟨0, 1 / 4, 1⟩, ⟨0, 1 / 2, 4⟩] else [⟨1, 1, 0⟩]

def splitting : Process 2 ℚ where
  actionCount _ := 1
  hasAction _ := Nat.one_pos
  branches s _ := if s = 0 then [⟨0, 1, 1⟩] else [⟨0, 1 / 2, 0⟩, ⟨0, 1 / 2, 0⟩]

end Process

end MarkovDecision
