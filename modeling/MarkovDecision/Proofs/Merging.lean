import Mathlib
import MarkovDecision.Bellman.Operator
import MarkovDecision.Proofs.ExactSums
import MarkovDecision.Proofs.Execution

namespace MarkovDecision

theorem eraseDups_nodup (xs : List Int) : xs.eraseDups.Nodup := by
  cases xs with
  | nil => exact List.nodup_nil
  | cons x rest =>
    rw [List.eraseDups_cons, List.nodup_cons, List.mem_eraseDups]
    exact ⟨by simp, eraseDups_nodup (rest.filter fun y => !y == x)⟩
  termination_by xs.length
  decreasing_by exact Nat.lt_succ_of_le (List.length_filter_le _ _)

structure Chance (K : Type) where
  next : Int
  probability : K
  reward : K

namespace Chance

variable {K : Type}

def columns (es : List (Chance K)) : Columns (Extended K) :=
  ⟨es.map (·.next), es.map fun e => .finite e.probability, es.map fun e => .finite e.reward⟩

def transition (e : Chance K) : Transition (Extended K) :=
  ⟨.index e.next, .real (.finite e.probability), .real (.finite e.reward)⟩

theorem columns_transitions (es : List (Chance K)) :
    ((columns es).next.zip ((columns es).probability.zip (columns es).reward)).map
      (fun (n, p, r) => (⟨.index n, .real p, .real r⟩ : Transition (Extended K))) = es.map transition := by
  simp only [columns, List.zip_map', List.map_map]
  rfl

def targets (es : List (Chance K)) : List Int := (es.map (·.next)).eraseDups.mergeSort (· ≤ ·)

theorem mem_targets {es : List (Chance K)} {t : Int} : t ∈ targets es ↔ ∃ e ∈ es, e.next = t := by
  rw [targets, List.mem_mergeSort, List.mem_eraseDups, List.mem_map]

theorem targets_ascending (es : List (Chance K)) : (targets es).Pairwise (· < ·) := by
  have sorted : (targets es).Pairwise fun a b => decide (a ≤ b) = true := List.pairwise_mergeSort
    (fun a b c first second => by simp only [decide_eq_true_eq] at *; omega)
    (fun a b => by simp only [Bool.or_eq_true, decide_eq_true_eq]; omega) (es.map (·.next)).eraseDups
  have distinct : (targets es).Nodup := (List.mergeSort_perm _ _).nodup_iff.mpr (eraseDups_nodup _)
  exact (sorted.and distinct).imp fun ⟨upTo, other⟩ => lt_of_le_of_ne (of_decide_eq_true upTo) other

def towards (t : Int) (es : List (Chance K)) : List (Chance K) := es.filter fun e => e.next = t

theorem mem_towards {es : List (Chance K)} {t : Int} {e : Chance K} : e ∈ towards t es ↔ e ∈ es ∧ e.next = t := by
  rw [towards, List.mem_filter, decide_eq_true_eq]

theorem towards_some {es : List (Chance K)} {t : Int} (target : t ∈ targets es) : towards t es ≠ [] := by
  obtain ⟨e, member, same⟩ := mem_targets.mp target
  exact List.ne_nil_of_mem (mem_towards.mpr ⟨member, same⟩)

theorem targets_unique {es : List (Chance K)} {ts : List Int} (ascending : ts.Pairwise (· < ·))
    (same : ∀ t, t ∈ ts ↔ ∃ e ∈ es, e.next = t) : targets es = ts := by
  have perm : (targets es).Perm ts := by
    refine (List.perm_ext_iff_of_nodup ((targets_ascending es).imp ne_of_lt) (ascending.imp ne_of_lt)).mpr fun t => ?_
    rw [mem_targets, same]
  exact perm.eq_of_pairwise (fun _ _ _ _ below above => absurd above below.not_gt) (targets_ascending es) ascending

theorem targets_of_ascending {es : List (Chance K)} (ascending : (es.map (·.next)).Pairwise (· < ·)) :
    targets es = es.map (·.next) :=
  targets_unique ascending fun _ => List.mem_map

theorem targets_perm {es es' : List (Chance K)} (perm : es.Perm es') : targets es = targets es' := by
  refine targets_unique (targets_ascending es') fun t => ?_
  simp only [mem_targets, perm.mem_iff]

theorem towards_of_nodup {es : List (Chance K)} (distinct : (es.map (·.next)).Nodup) {e : Chance K} (member : e ∈ es) :
    towards e.next es = [e] := by
  induction es with
  | nil => cases member
  | cons x rest ih =>
    obtain ⟨fresh, later⟩ := List.nodup_cons.mp distinct
    rcases List.mem_cons.mp member with rfl | member
    · have others : towards e.next rest = [] :=
        List.filter_eq_nil_iff.mpr fun y inRest same =>
          fresh (List.mem_map.mpr ⟨y, inRest, of_decide_eq_true same⟩)
      rw [towards, List.filter_cons_of_pos (by simp)]
      exact congrArg (e :: ·) others
    · have other : x.next ≠ e.next := fun same => fresh (List.mem_map.mpr ⟨e, member, same.symm⟩)
      rw [towards, List.filter_cons_of_neg (by simpa using other)]
      exact ih later member

variable [Field K]

def mass (t : Int) (es : List (Chance K)) : K := ((towards t es).map (·.probability)).sum

def yield (t : Int) (es : List (Chance K)) : K := ((towards t es).map fun e => e.probability * e.reward).sum

variable [LinearOrder K]

def merge (es : List (Chance K)) : List (Chance K) := (targets es).map fun t =>
  ⟨t, mass t es, if 0 < mass t es then yield t es / mass t es else yield t es⟩

theorem merge_next (es : List (Chance K)) : (merge es).map (·.next) = targets es := by
  rw [merge, List.map_map]
  exact List.map_id _

def Positive (es : List (Chance K)) : Prop := ∀ e ∈ es, 0 < e.probability

theorem merge_of_ascending {es : List (Chance K)} (ascending : (es.map (·.next)).Pairwise (· < ·))
    (settled : ∀ e ∈ es, 0 < e.probability ∨ e.reward = 0) : merge es = es := by
  have alone (e : Chance K) (member : e ∈ es) : Chance.mk e.next (mass e.next es)
      (if 0 < mass e.next es then yield e.next es / mass e.next es else yield e.next es) = e := by
    have single := towards_of_nodup (ascending.imp ne_of_lt) member
    have mass : mass e.next es = e.probability := by simp [mass, single]
    have yield : yield e.next es = e.probability * e.reward := by simp [yield, single]
    rw [mass, yield]
    by_cases positive : 0 < e.probability
    · rw [if_pos positive, mul_div_cancel_left₀ _ positive.ne']
    · have nothing := (settled e member).resolve_left positive
      rw [if_neg positive, nothing, mul_zero, ← nothing]
  rw [merge, targets_of_ascending ascending, List.map_map]
  exact (List.map_congr_left alone).trans (List.map_id es)

theorem Positive.merge_of_ascending {es : List (Chance K)} (positive : Positive es)
    (ascending : (es.map (·.next)).Pairwise (· < ·)) : Chance.merge es = es :=
  Chance.merge_of_ascending ascending fun e member => .inl (positive e member)

theorem merge_perm {es es' : List (Chance K)} (perm : es.Perm es') : merge es = merge es' := by
  have group (t : Int) : (towards t es).Perm (towards t es') := perm.filter _
  have mass (t : Int) : mass t es = mass t es' := ((group t).map _).sum_eq
  have yield (t : Int) : yield t es = yield t es' := ((group t).map _).sum_eq
  simp only [merge, targets_perm perm, mass, yield]

section Exact

variable [FloorRing K]

theorem weightTo_exact (t : Int) (f : Chance K → K) (es : List (Chance K)) :
    Columns.weightTo t (es.map (·.next)) (es.map fun e => (.finite (f e) : Extended K))
      = .finite ((towards t es).map f).sum := by
  have general (start : K) : ((es.map (·.next)).zip (es.map fun e => (.finite (f e) : Extended K))).foldl
      (fun total (n, w) => if n == t then total + w else total) (.finite start)
      = .finite (start + ((towards t es).map f).sum) := by
    induction es generalizing start with
    | nil => simp [towards]
    | cons e rest ih =>
      rw [List.map_cons, List.map_cons, List.zip_cons_cons, List.foldl_cons]
      by_cases here : e.next = t
      · rw [towards, List.filter_cons_of_pos (by simpa using here), List.map_cons, List.sum_cons, ← add_assoc]
        refine Eq.trans (congrArg (List.foldl _ · _) ?_) (ih (start + f e))
        exact if_pos (by simpa using here)
      · rw [towards, List.filter_cons_of_neg (by simpa using here)]
        refine Eq.trans (congrArg (List.foldl _ · _) ?_) (ih start)
        exact if_neg (by simpa using here)
  rw [Columns.weightTo, Extended.zero_eq, general, zero_add]

theorem columns_merged (es : List (Chance K)) : (columns es).merged = columns (merge es) := by
  have masses (t : Int) := weightTo_exact t (·.probability) es
  have yields (t : Int) := weightTo_exact t (fun e => e.probability * e.reward) es
  have products : List.zipWith (· * ·) (columns es).probability (columns es).reward
      = es.map fun e => (.finite (e.probability * e.reward) : Extended K) := by
    simp [columns, List.zipWith_map, List.zipWith_self]
  have rewards (t : Int) : (if Scalar.lt Scalar.zero (.finite (mass t es) : Extended K)
        then (.finite (yield t es) : Extended K) / .finite (mass t es) else .finite (yield t es))
      = .finite (if 0 < mass t es then yield t es / mass t es else yield t es) := by
    rw [Extended.zero_eq, Extended.lt_finite]
    by_cases positive : 0 < mass t es
    · rw [if_pos (decide_eq_true positive), if_pos positive, Extended.finite_div positive.ne']
    · rw [if_neg (by simpa using positive), if_neg positive]
  have known : (columns es).targets = targets es := rfl
  unfold Columns.merged
  simp only [products, known]
  simp only [columns, masses, yields, merge, List.map_map]
  refine congr (congrArg₂ Columns.mk ?_ ?_) ?_
  · exact (List.map_id _).symm
  · rfl
  · exact List.map_congr_left fun t _ => rewards t

def worth (discount : Extended K) (x : Int → Extended K) (es : List (Chance K)) : Extended K :=
  (es.map fun e => .finite e.probability * (.finite e.reward + discount * x e.next)).sum

theorem backup_worth {es : List (Chance K)} {v : Reader (Extended K)} {x : Int → Extended K}
    (found : ∀ e ∈ es, v e.next = .ok (x e.next)) (discount : Extended K) :
    backup discount v (es.map transition) = .ok (worth discount x es) := by
  have step : ∀ (total : Extended K), ∀ e ∈ es, (do
      let value ← v (← (transition e).next.position)
      return total + (transition e).probability.value * ((transition e).reward.value + discount * value)
        : Outcome (Extended K) (Extended K))
      = .ok (total + .finite e.probability * (.finite e.reward + discount * x e.next)) := by
    intro total e member
    rw [transition, StateLabel.position, Outcome.ok_bind, found e member]
    rfl
  rw [backup, List.foldlM_map, Outcome.foldlM_ok step, Extended.zero_eq]
  exact congrArg Except.ok ((List.foldl_map ..).symm.trans ((Extended.foldl_sum _ _).trans (zero_add _)))

theorem backup_missing {es : List (Chance K)} {v : Reader (Extended K)}
    (only : ∀ i e, v i = .error e → e = .index) (missing : ∃ e ∈ es, v e.next = .error .index)
    (discount : Extended K) : backup discount v (es.map transition) = .error .index := by
  rw [backup, List.foldlM_map]
  generalize (Scalar.zero : Extended K) = start
  induction es generalizing start with
  | nil => simp at missing
  | cons e rest ih =>
    rw [List.foldlM_cons]
    cases found : v e.next with
    | error failure =>
      rw [transition, StateLabel.position, Outcome.ok_bind, found, only _ _ found]
      rfl
    | ok value =>
      have later : ∃ e ∈ rest, v e.next = .error .index := by
        obtain ⟨e', member, failed⟩ := missing
        rcases List.mem_cons.mp member with rfl | member
        · rw [found] at failed
          cases failed
        · exact ⟨e', member, failed⟩
      rw [transition, StateLabel.position, Outcome.ok_bind, found]
      exact ih later _

end Exact

variable [IsStrictOrderedRing K] {es : List (Chance K)}

-- What is left of the outcomes that lead to one state. Their weighted average pays what they paid.
structure Gathers (es : List (Chance K)) (e : Chance K) : Prop where
  target : e.next ∈ targets es
  probability : e.probability = mass e.next es
  positive : 0 < e.probability
  pays : e.probability * e.reward = yield e.next es

theorem Positive.mass_pos (positive : Positive es) {t : Int} (target : t ∈ targets es) : 0 < mass t es := by
  refine List.sum_pos _ (List.forall_mem_map.mpr fun e member => ?_) (by simpa using towards_some target)
  exact positive e (mem_towards.mp member).1

theorem Positive.gathers (positive : Positive es) {e : Chance K} (member : e ∈ merge es) : Gathers es e := by
  obtain ⟨t, target, rfl⟩ := List.mem_map.mp member
  have mass := positive.mass_pos target
  refine ⟨target, rfl, mass, ?_⟩
  rw [if_pos mass, mul_div_cancel₀ _ mass.ne']

theorem Positive.merge (positive : Positive es) : Positive (merge es) :=
  fun _ member => (positive.gathers member).positive

theorem Positive.merge_sum {M : Type} [AddCommMonoid M] (positive : Positive es) (h : Chance K → M)
    (agree : ∀ e, Gathers es e → h e = ((towards e.next es).map h).sum) :
    ((Chance.merge es).map h).sum = (es.map h).sum := by
  rw [← sum_groups (·.next) h ((targets_ascending es).imp ne_of_lt) fun e member =>
    mem_targets.mpr ⟨e, member, rfl⟩, Chance.merge, List.map_map]
  exact congrArg List.sum (List.map_congr_left fun t target =>
    agree _ (positive.gathers (List.mem_map_of_mem target)))

theorem Positive.sum_probability (positive : Positive es) (f : Int → K) :
    ((Chance.merge es).map fun e => e.probability * f e.next).sum = (es.map fun e => e.probability * f e.next).sum := by
  refine positive.merge_sum _ fun e gathers => ?_
  rw [gathers.probability, mass, ← List.sum_map_mul_right]
  refine congrArg List.sum (List.map_congr_left fun e' member => ?_)
  rw [(mem_towards.mp member).2]

theorem Positive.sum_reward (positive : Positive es) :
    ((Chance.merge es).map fun e => e.probability * e.reward).sum = (es.map fun e => e.probability * e.reward).sum :=
  positive.merge_sum _ fun _ gathers => gathers.pays

variable [FloorRing K]

theorem Positive.worth_group (positive : Positive es) (some : es ≠ []) (y : Extended K) :
    (es.map fun e => .finite e.probability * (.finite e.reward + y)).sum
      = .finite (es.map fun e => e.probability * e.reward).sum + .finite (es.map (·.probability)).sum * y := by
  induction es with
  | nil => exact absurd rfl some
  | cons e rest ih =>
    obtain ⟨here, later⟩ := List.forall_mem_cons.mp positive
    rw [List.map_cons, List.sum_cons, Extended.pos_mul_add here]
    by_cases last : rest = []
    · simp [last]
    · have mass : 0 < (rest.map (·.probability)).sum :=
        List.sum_pos _ (List.forall_mem_map.mpr later) (by simpa using last)
      rw [ih later last, List.map_cons, List.map_cons, List.sum_cons, List.sum_cons, ← Extended.finite_add,
        ← Extended.pos_add_mul here mass, add_add_add_comm]

theorem Positive.worth_merge (positive : Positive es) (discount : Extended K) (x : Int → Extended K) :
    worth discount x (Chance.merge es) = worth discount x es := by
  refine positive.merge_sum _ fun e gathers => ?_
  have group : (towards e.next es).map
        (fun e' => Extended.finite e'.probability * (.finite e'.reward + discount * x e'.next))
      = (towards e.next es).map fun e' => .finite e'.probability * (.finite e'.reward + discount * x e.next) :=
    List.map_congr_left fun e' member => by rw [(mem_towards.mp member).2]
  have towards_pos : Positive (towards e.next es) := fun e' member => positive e' (mem_towards.mp member).1
  rw [group, towards_pos.worth_group (towards_some gathers.target), Extended.pos_mul_add gathers.positive,
    gathers.pays, gathers.probability]
  rfl

theorem Positive.backup_merge (positive : Positive es) (discount : Extended K) (v : Array (Extended K)) :
    backup discount (Reader.ofArray v) ((Chance.merge es).map transition)
      = backup discount (Reader.ofArray v) (es.map transition) := by
  by_cases found : ∀ t ∈ targets es, ∃ y, Reader.ofArray v t = .ok y
  · choose! x known using found
    rw [backup_worth (x := x) fun e member => known _ (positive.gathers member).target,
      backup_worth (x := x) fun e member => known _ (mem_targets.mpr ⟨e, member, rfl⟩), positive.worth_merge]
  · push Not at found
    obtain ⟨t, target, none⟩ := found
    have only : ∀ i e, Reader.ofArray v i = .error e → e = .index := fun _ _ => entry_failure
    have failed : Reader.ofArray v t = .error .index := by
      cases read : Reader.ofArray v t with
      | ok y => exact absurd read (none y)
      | error e => rw [only t e read]
    obtain ⟨e, member, rfl⟩ := mem_targets.mp target
    have kept : ∃ e' ∈ Chance.merge es, Reader.ofArray v e'.next = .error .index :=
      ⟨_, List.mem_map_of_mem target, failed⟩
    rw [backup_missing only kept, backup_missing only ⟨e, member, failed⟩]

section Nonnegative

omit [FloorRing K]

variable (nonnegative : ∀ e ∈ es, 0 ≤ e.probability)

include nonnegative

theorem mass_nonneg (t : Int) : 0 ≤ mass t es :=
  List.sum_nonneg (List.forall_mem_map.mpr fun e member => nonnegative e (mem_towards.mp member).1)

theorem yield_of_mass {t : Int} (none : mass t es = 0) : yield t es = 0 := by
  have each : ∀ p ∈ (towards t es).map (·.probability), 0 ≤ p :=
    List.forall_mem_map.mpr fun e member => nonnegative e (mem_towards.mp member).1
  refine List.sum_eq_zero (List.forall_mem_map.mpr fun e member => ?_)
  have without : e.probability = 0 :=
    List.all_zero_of_le_zero_le_of_sum_eq_zero each none (List.mem_map_of_mem member)
  rw [without, zero_mul]

theorem merge_member {u : Chance K} (member : u ∈ merge es) : u.probability = mass u.next es ∧
    u.probability * u.reward = yield u.next es ∧ (0 < u.probability ∨ u.reward = 0) := by
  obtain ⟨t, _, rfl⟩ := List.mem_map.mp member
  refine ⟨rfl, ?_⟩
  rcases (mass_nonneg nonnegative t).lt_or_eq with positive | none
  · rw [if_pos positive]
    exact ⟨mul_div_cancel₀ _ positive.ne', .inl positive⟩
  · have nothing := yield_of_mass nonnegative none.symm
    rw [← none, if_neg (lt_irrefl 0), nothing]
    exact ⟨zero_mul 0, .inr rfl⟩

end Nonnegative

end Chance

-- Outcomes may be listed in any order and any number of times, and some may have no probability: each next
-- state is left once, in ascending order, with the probability of its outcomes and what they pay by
-- probability. Listed in another order they merge alike, and what was merged stays as it is.
theorem merging_conserves {K : Type} [Field K] [LinearOrder K] [FloorRing K] [IsStrictOrderedRing K]
    {es : List (Chance K)} (nonnegative : ∀ e ∈ es, 0 ≤ e.probability) :
    ∃ us : List (Chance K), (Chance.columns es).merged = Chance.columns us ∧
      (us.map (·.next)).Pairwise (· < ·) ∧ (∀ t, t ∈ us.map (·.next) ↔ t ∈ es.map (·.next)) ∧
      (∀ u ∈ us, u.probability = ((es.filter fun e => e.next = u.next).map (·.probability)).sum ∧
        u.probability * u.reward
          = ((es.filter fun e => e.next = u.next).map fun e => e.probability * e.reward).sum) ∧
      (∀ es' : List (Chance K), es'.Perm es → (Chance.columns es').merged = Chance.columns us) ∧
      (Chance.columns us).merged = Chance.columns us := by
  have next := Chance.merge_next es
  have ascending : ((Chance.merge es).map (·.next)).Pairwise (· < ·) := by
    rw [next]
    exact Chance.targets_ascending es
  have kept : Chance.merge (Chance.merge es) = Chance.merge es :=
    Chance.merge_of_ascending ascending fun u member => (Chance.merge_member nonnegative member).2.2
  refine ⟨Chance.merge es, Chance.columns_merged es, ascending, fun t => ?_, fun u member => ?_,
    fun es' perm => ?_, ?_⟩
  · rw [next, Chance.mem_targets, List.mem_map]
  · obtain ⟨probability, pays, _⟩ := Chance.merge_member nonnegative member
    exact ⟨probability, pays⟩
  · rw [Chance.columns_merged, Chance.merge_perm perm]
  · rw [Chance.columns_merged, kept]

theorem merging_conserves_scattered :
    (Chance.columns [⟨2, 1 / 2, 4⟩, ⟨0, 0, 7⟩, ⟨2, 1 / 4, 7⟩, ⟨0, 0, 1⟩]).merged
        = Chance.columns [(⟨0, 0, 0⟩ : Chance ℚ), ⟨2, 3 / 4, 5⟩] ∧
      (Chance.columns [(⟨0, 0, 0⟩ : Chance ℚ), ⟨2, 3 / 4, 5⟩]).merged
        = Chance.columns [⟨0, 0, 0⟩, ⟨2, 3 / 4, 5⟩] := by
  have known : (Chance.columns [⟨2, 1 / 2, 4⟩, ⟨0, 0, 7⟩, ⟨2, 1 / 4, 7⟩, ⟨0, 0, 1⟩]).merged
      = Chance.columns [(⟨0, 0, 0⟩ : Chance ℚ), ⟨2, 3 / 4, 5⟩] := by
    have next : Chance.targets [(⟨2, 1 / 2, 4⟩ : Chance ℚ), ⟨0, 0, 7⟩, ⟨2, 1 / 4, 7⟩, ⟨0, 0, 1⟩] = [0, 2] :=
      Chance.targets_unique (by decide) fun t => by simp; omega
    rw [Chance.columns_merged, Chance.merge, next]
    exact congrArg Chance.columns (by simp [Chance.mass, Chance.yield, Chance.towards]; norm_num)
  have nonnegative : ∀ e ∈ [(⟨2, 1 / 2, 4⟩ : Chance ℚ), ⟨0, 0, 7⟩, ⟨2, 1 / 4, 7⟩, ⟨0, 0, 1⟩], 0 ≤ e.probability := by
    decide +kernel
  obtain ⟨us, merged, _, _, _, _, again⟩ := merging_conserves nonnegative
  rw [← merged, known] at again
  exact ⟨known, again⟩

end MarkovDecision
