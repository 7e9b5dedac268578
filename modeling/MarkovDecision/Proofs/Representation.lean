import MarkovDecision.Proofs.Extended
import MarkovDecision.Proofs.FlatArrays
import MarkovDecision.Proofs.Process.Basic
import MarkovDecision.Settings.Basic

namespace MarkovDecision

variable {n : Nat} {K : Type}

def exactVector (v : Fin n → K) : Array (Extended K) := Array.ofFn fun s => .finite (v s)

def Process.actionArray (P : Process n K) (d : P.Selection) : Array Int :=
  Array.ofFn fun s => ((d s : Nat) : Int)

@[simp] theorem exactVector_size (v : Fin n → K) : (exactVector v).size = n := Array.size_ofFn

theorem exactVector_injective : Function.Injective (exactVector : (Fin n → K) → Array (Extended K)) := by
  intro u v same
  funext s
  have cell := congrArg (·[(s : Nat)]?) same
  simpa [exactVector] using cell

theorem exactVector_toList (v : Fin n → K) :
    (exactVector v).toList = (List.ofFn v).map Extended.finite := by
  rw [exactVector, Array.toList_ofFn, List.map_ofFn]
  rfl

theorem exactVector_setIfInBounds (v : Fin n → K) (j : Fin n) (x : K) :
    (exactVector v).setIfInBounds (j : Nat) (.finite x) = exactVector (Function.update v j x) := by
  refine Array.ext_getElem? fun i => ?_
  rw [Array.getElem?_setIfInBounds, exactVector, exactVector, Array.getElem?_ofFn, Array.getElem?_ofFn,
    Array.size_ofFn]
  by_cases here : (j : Nat) = i
  · subst here
    simp
  · rw [if_neg here]
    by_cases inside : i < n
    · rw [dif_pos inside, dif_pos inside, Function.update_of_ne fun same => here (congrArg Fin.val same).symm]
    · rw [dif_neg inside, dif_neg inside]

@[simp] theorem actionArray_size (P : Process n K) (d : P.Selection) : (P.actionArray d).size = n :=
  Array.size_ofFn

variable [Field K]

def padded {k : Nat} (f : Fin k → K) (i : Nat) : K := if inside : i < k then f ⟨i, inside⟩ else 0

@[simp] theorem padded_fin {k : Nat} (f : Fin k → K) (i : Fin k) : padded f (i : Nat) = f i :=
  dif_pos i.isLt

theorem padded_single (j : Fin n) : padded (Pi.single j 1 : Fin n → K) = fun i => if i = (j : Nat) then 1 else 0 := by
  funext i
  by_cases here : i = (j : Nat)
  · rw [here, padded_fin, Pi.single_eq_same, if_pos rfl]
  · rw [if_neg here, padded]
    split
    · exact Pi.single_eq_of_ne (fun same => here (congrArg Fin.val same)) 1
    · rfl

variable [LinearOrder K] [FloorRing K]

theorem exactVector_zero (n : Nat) :
    Array.replicate n Scalar.zero = exactVector (0 : Fin n → K) := by
  refine Array.ext_getElem? fun i => ?_
  rw [Array.getElem?_replicate, exactVector, Array.getElem?_ofFn, Extended.zero_eq]
  rfl

theorem exactVector_getD (v : Fin n → K) (s : Fin n) :
    (exactVector v).getD (s : Nat) Scalar.zero = .finite (v s) := by
  simp [exactVector, Array.getD]

structure Transition.Reads (t : Transition (Extended K)) (b : Branch n K) : Prop where
  next : t.next = .index (b.next : Nat)
  probability : t.probability.value = .finite b.probability
  reward : t.reward.value = .finite b.reward

def Model.Columnar {α : Type} : Model α → Prop
  | .table _ => True
  | .flat m => m.Covers

structure Model.Describes (m : Model (Extended K)) (P : Process n K) : Prop where
  states : m.stateCount = n
  actions : ∀ s : Fin n, m.actionCount (s : Nat) = .ok (P.actionCount s : Int)
  outcomes : ∀ (s : Fin n) (a : Fin (P.actionCount s)),
    ∃ ts, m.transitions (s : Nat) (a : Nat) = .ok ts ∧ List.Forall₂ Transition.Reads ts (P.branches s a)
  columnar : m.Columnar

def Branch.transition (b : Branch n K) : Transition (Extended K) :=
  ⟨.index (b.next : Nat), .real (.finite b.probability), .real (.finite b.reward)⟩

def Process.table (P : Process n K) : Table (Extended K) :=
  ⟨Array.ofFn fun s => Array.ofFn fun a => .ok ((P.branches s a).map Branch.transition)⟩

theorem table_describes (P : Process n K) : (Model.table P.table).Describes P := by
  refine ⟨Array.size_ofFn, fun s => ?_, fun s a => ⟨(P.branches s a).map Branch.transition, ?_, ?_⟩,
    trivial⟩
  · change (entry P.table.states ((s : Nat) : Int) >>= fun actions => pure (actions.size : Int)) = _
    rw [Process.table, entry_ofFn, Outcome.ok_bind, Array.size_ofFn, Outcome.pure_eq]
  · change (entry P.table.states ((s : Nat) : Int) >>= fun actions =>
      entry actions ((a : Nat) : Int) >>= fun outcomes => outcomes) = _
    rw [Process.table, entry_ofFn, Outcome.ok_bind, entry_ofFn, Outcome.ok_bind]
  · refine List.forall₂_map_left_iff.mpr (List.forall₂_same.mpr fun b _ => ⟨rfl, rfl, rfl⟩)

theorem Model.exists_process {m : Model (Extended K)} (columnar : m.Columnar)
    (listed : ∀ s < m.stateCount, ∃ k : Nat, 0 < k ∧ m.actionCount (s : Nat) = .ok (k : Int) ∧
      ∀ a < k, ∃ ts, m.transitions (s : Nat) (a : Nat) = .ok ts ∧
        ∀ t ∈ ts, ∃ b : Branch m.stateCount K, Transition.Reads t b) :
    ∃ P : Process m.stateCount K, m.Describes P := by
  choose! count positive counted outcomes using listed
  have branches (s : Fin m.stateCount) (a : Fin (count s)) :
      ∃ (bs : List (Branch m.stateCount K)) (ts : List (Transition (Extended K))),
        m.transitions ((s : Nat) : Int) ((a : Nat) : Int) = .ok ts ∧ List.Forall₂ Transition.Reads ts bs := by
    obtain ⟨ts, known, reads⟩ := outcomes s s.isLt a a.isLt
    obtain ⟨bs, each⟩ := exists_forall₂ reads
    exact ⟨bs, ts, known, each⟩
  choose bs read using branches
  exact ⟨⟨fun s => count s, fun s => positive s s.isLt, bs⟩, rfl, fun s => counted s s.isLt, read, columnar⟩

def Settings.quiet (iterations : Nat) (epsilon tolerance : K) : Settings (Extended K) where
  iterations := iterations
  epsilon := .real (.finite epsilon)
  stopRule := .supremum
  parallel := false
  workers := none
  capacity := 1000
  verbose := false
  lineLength := none
  bindingTolerance := some (.finite tolerance)
  backend := ⟨.null, .null, .null, .null, .null, none⟩

section Values

variable {m : Model (Extended K)} {P : Process n K} {γ : K} {v : Fin n → K}

theorem backup_exact {ts : List (Transition (Extended K))} {bs : List (Branch n K)}
    (reads : List.Forall₂ Transition.Reads ts bs) (γ : K) (v : Fin n → K) :
    backup (.finite γ) (Reader.ofArray (exactVector v)) ts
      = .ok (.finite (bs.map fun b => b.probability * (b.reward + γ * v b.next)).sum) := by
  -- the fold goes from the left, so the sum so far has to be general
  have general : ∀ start : K,
      ts.foldlM (fun (total : Extended K) (t : Transition (Extended K)) => do
          let value ← Reader.ofArray (exactVector v) (← t.next.position)
          return total + t.probability.value * (t.reward.value + .finite γ * value))
        (Extended.finite start)
      = (.ok (.finite (start + (bs.map fun b => b.probability * (b.reward + γ * v b.next)).sum)) :
          Outcome (Extended K) (Extended K)) := by
    induction reads with
    | nil => intro start; simp
    | @cons t b ts bs first _ ih =>
      intro start
      rw [List.foldlM_cons]
      simp only [first.next, first.probability, first.reward, StateLabel.position, Reader.ofArray,
        exactVector, Outcome.ok_bind, entry_ofFn, Outcome.pure_eq, Extended.finite_mul,
        Extended.finite_add]
      refine (ih _).trans ?_
      rw [List.map_cons, List.sum_cons, add_assoc]
  rw [backup, Extended.zero_eq]
  refine (general 0).trans ?_
  rw [zero_add]

theorem actionValue_exact (described : m.Describes P) {goal : Goal (Extended K)}
    (discount : goal.discount = .ok (.finite γ)) (v : Fin n → K) (s : Fin n)
    (a : Fin (P.actionCount s)) :
    m.actionValue goal (s : Nat) (a : Nat) (Reader.ofArray (exactVector v))
      = .ok (.finite (P.actionValue γ v s a)) := by
  obtain ⟨ts, known, reads⟩ := described.outcomes s a
  rw [Model.actionValue, discount, Outcome.ok_bind, known, Outcome.ok_bind]
  exact backup_exact reads γ v

-- Numbers that compare as an order does, all of them above nothing at all: finite doubles, or exact numbers.
structure Comparable {α : Type} [Scalar α] (good : α → Prop) : Prop where
  above : ∀ x, good x → Scalar.lt Scalar.negInfinity x = true
  strict : ∀ x y, good x → good y → Scalar.lt x y = true → Scalar.lt y x = false
  between : ∀ x y z, good x → good y → good z → Scalar.lt x y = true → Scalar.lt x z = true ∨ Scalar.lt z y = true

theorem Extended.comparable : Comparable fun x : Extended K => ∃ y, x = .finite y where
  above := by
    rintro _ ⟨x, rfl⟩
    rfl
  strict := by
    rintro _ _ ⟨x, rfl⟩ ⟨y, rfl⟩ less
    rw [lt_finite, decide_eq_true_eq] at less
    rw [lt_finite, decide_eq_false_iff_not]
    exact less.not_gt
  between := by
    rintro _ _ _ ⟨x, rfl⟩ ⟨y, rfl⟩ ⟨z, rfl⟩ less
    simp only [lt_finite, decide_eq_true_eq] at less ⊢
    exact (lt_or_ge x z).imp_right fun above => above.trans_lt less

section Search

variable {α : Type} [Scalar α] {good : α → Prop}

-- The first of the greatest of k numbers. What is not above nothing at all does not count.
structure FirstGreatest (q : Nat → α) (k b : Nat) : Prop where
  within : b < k
  above : Scalar.lt Scalar.negInfinity (q b) = true
  greatest : ∀ a < k, Scalar.lt (q b) (q a) = false
  first : ∀ a < b, Scalar.lt Scalar.negInfinity (q a) = true → Scalar.lt (q a) (q b) = true

theorem Comparable.irrefl (comparable : Comparable good) {x : α} (number : good x) : Scalar.lt x x = false :=
  Bool.eq_false_iff.mpr fun less => absurd less (by simp [comparable.strict _ _ number number less])

theorem FirstGreatest.begins (comparable : Comparable good) {q : Nat → α} {k : Nat}
    (counts : ∀ a < k + 1, good (q a) ∨ ∀ x, Scalar.lt x (q a) = false)
    (none : ∀ a < k, Scalar.lt Scalar.negInfinity (q a) = false) (better : Scalar.lt Scalar.negInfinity (q k) = true) :
    FirstGreatest q (k + 1) k := by
  have new : good (q k) := (counts k (Nat.lt_succ_self k)).resolve_right fun never => by simp [never] at better
  refine ⟨Nat.lt_succ_self k, better, fun a below => ?_, fun a before above => ?_⟩
  · rcases Nat.lt_succ_iff_lt_or_eq.mp below with before | rfl
    · rcases counts a below with number | never
      · exact absurd (none a before) (by simp [comparable.above _ number])
      · exact never _
    · exact comparable.irrefl new
  · simp [none a before] at above

theorem FirstGreatest.stays {q : Nat → α} {k b : Nat} (leads : FirstGreatest q k b)
    (worse : Scalar.lt (q b) (q k) = false) : FirstGreatest q (k + 1) b := by
  refine ⟨Nat.lt_succ_of_lt leads.within, leads.above, fun a below => ?_, leads.first⟩
  rcases Nat.lt_succ_iff_lt_or_eq.mp below with before | rfl
  · exact leads.greatest a before
  · exact worse

-- A number before the new best lies between it and the old one.
theorem FirstGreatest.replaced (comparable : Comparable good) {q : Nat → α} {k b : Nat}
    (counts : ∀ a < k + 1, good (q a) ∨ ∀ x, Scalar.lt x (q a) = false) (leads : FirstGreatest q k b)
    (better : Scalar.lt (q b) (q k) = true) : FirstGreatest q (k + 1) k := by
  have numbers {a : Nat} (below : a < k + 1) {x : α} (less : Scalar.lt x (q a) = true) : good (q a) :=
    (counts a below).resolve_right fun never => by simp [never x] at less
  have old := numbers (Nat.lt_succ_of_lt leads.within) leads.above
  have new := numbers (Nat.lt_succ_self k) better
  have less {a : Nat} (before : a < k) (number : good (q a)) : Scalar.lt (q a) (q k) = true :=
    (comparable.between _ _ _ old new number better).resolve_left (by simp [leads.greatest a before])
  refine ⟨Nat.lt_succ_self k, comparable.above _ new, fun a below => ?_,
    fun a before above => less before (numbers (Nat.lt_succ_of_lt before) above)⟩
  rcases Nat.lt_succ_iff_lt_or_eq.mp below with before | rfl
  · rcases counts a below with number | never
    · exact comparable.strict _ _ number new (less before number)
    · exact never _
  · exact comparable.irrefl new

-- A search from the left with strict improvement ends at the first of the greatest, or where it began.
-- Numbers among those it searches compare, and what is no number is never better.
theorem search_ends (comparable : Comparable good) (q : Nat → α) (k : Nat)
    (counts : ∀ a < k, good (q a) ∨ ∀ x, Scalar.lt x (q a) = false) :
    ((List.range k).foldl (fun (best : Choice α) (a : Nat) => best.improve (q a) a) Choice.none = Choice.none ∧
      ∀ a < k, Scalar.lt Scalar.negInfinity (q a) = false) ∨
    ∃ b, (List.range k).foldl (fun (best : Choice α) (a : Nat) => best.improve (q a) a) Choice.none = (q b, (b : Int)) ∧
      FirstGreatest q k b := by
  induction k with
  | zero => exact Or.inl ⟨rfl, fun a below => absurd below (Nat.not_lt_zero a)⟩
  | succ k ih =>
    rw [List.range_succ, List.foldl_append]
    rcases ih fun a below => counts a (Nat.lt_succ_of_lt below) with ⟨stayed, none⟩ | ⟨b, found, leads⟩
    · rw [stayed]
      cases better : Scalar.lt Scalar.negInfinity (q k) with
      | false =>
        refine Or.inl ⟨if_neg (by simp [Choice.none, better]), fun a below => ?_⟩
        rcases Nat.lt_succ_iff_lt_or_eq.mp below with before | rfl
        · exact none a before
        · exact better
      | true => exact Or.inr ⟨k, if_pos better, .begins comparable counts none better⟩
    · rw [found]
      cases better : Scalar.lt (q b) (q k) with
      | false => exact Or.inr ⟨b, if_neg (by simp [better]), leads.stays better⟩
      | true => exact Or.inr ⟨k, if_pos better, leads.replaced comparable counts better⟩

theorem search_lowest (comparable : Comparable good) (q : Nat → α) (k : Nat) (numbers : ∀ a ≤ k, good (q a)) :
    ∃ b ≤ k, (List.range (k + 1)).foldl (fun (best : Choice α) (a : Nat) => best.improve (q a) a) Choice.none
        = (q b, (b : Int)) ∧
      (∀ a ≤ k, Scalar.lt (q b) (q a) = false) ∧ ∀ a < b, Scalar.lt (q a) (q b) = true := by
  have above (a : Nat) (within : a ≤ k) := comparable.above _ (numbers a within)
  rcases search_ends comparable q (k + 1) fun a below => Or.inl (numbers a (Nat.le_of_lt_succ below)) with
    ⟨_, none⟩ | ⟨b, found, leads⟩
  · exact absurd (none 0 (Nat.succ_pos k)) (by simp [above 0 (Nat.zero_le k)])
  · have inside := Nat.le_of_lt_succ leads.within
    exact ⟨b, inside, found, fun a within => leads.greatest a (Nat.lt_succ_of_le within),
      fun a before => leads.first a before (above a (before.le.trans inside))⟩

end Search

theorem search_first (q : Nat → K) (k : Nat) :
    ∃ b ≤ k, (List.range (k + 1)).foldl
        (fun (best : Choice (Extended K)) (a : Nat) => best.improve (.finite (q a)) a) Choice.none
        = (.finite (q b), (b : Int)) ∧
      (∀ a ≤ k, q a ≤ q b) ∧ ∀ a < b, q a < q b := by
  obtain ⟨b, inside, found, greatest, first⟩ :=
    search_lowest Extended.comparable (fun a => Extended.finite (q a)) k fun a _ => ⟨q a, rfl⟩
  exact ⟨b, inside, found, fun a within => by simpa using greatest a within, fun a before => by simpa using first a before⟩

theorem Model.greedyChoice_ok {α : Type} [Scalar α] {m : Model α} {goal : Goal α} {s : Int}
    {v : Reader α} {k : Nat} {q : Nat → α} (count : m.positiveCount s = .ok k)
    (values : ∀ a < k, m.actionValue goal s (a : Nat) v = .ok (q a)) :
    m.greedyChoice goal s v = .ok ((List.range k).foldl
      (fun (best : Choice α) (a : Nat) => best.improve (q a) a) Choice.none) := by
  rw [Model.greedyChoice, count, Outcome.ok_bind]
  refine Outcome.foldlM_ok (fun best a member => ?_) _
  rw [values a (List.mem_range.mp member)]
  rfl

theorem Model.positiveCount_ok {α : Type} {m : Model α} {s : Int} {k : Nat} (positive : 0 < k)
    (count : m.actionCount s = .ok (k : Int)) : m.positiveCount s = .ok k := by
  rw [positiveCount, count, Outcome.ok_bind, if_neg (by omega)]
  rfl

theorem positiveCount_exact (described : m.Describes P) (s : Fin n) :
    m.positiveCount (s : Nat) = .ok (P.actionCount s) :=
  Model.positiveCount_ok (P.hasAction s) (described.actions s)

theorem greedyChoice_exact (described : m.Describes P) {goal : Goal (Extended K)}
    (discount : goal.discount = .ok (.finite γ)) (v : Fin n → K) (s : Fin n) :
    m.greedyChoice goal (s : Nat) (Reader.ofArray (exactVector v))
      = .ok (.finite (P.bellman γ v s), ((P.greedy γ v s : Nat) : Int)) := by
  let q : Nat → K := padded (P.actionValue γ v s)
  have known (a : Fin (P.actionCount s)) : q a = P.actionValue γ v s a := padded_fin _ a
  have values : ∀ a < P.actionCount s, m.actionValue goal (s : Nat) (a : Nat)
      (Reader.ofArray (exactVector v)) = .ok (.finite (q a)) := fun a inside => by
    rw [actionValue_exact described discount v s ⟨a, inside⟩, ← known]
  rw [Model.greedyChoice_ok (positiveCount_exact described s) values]
  obtain ⟨k, count⟩ := Nat.exists_eq_succ_of_ne_zero (P.hasAction s).ne'
  obtain ⟨b, inside, found, greatest, first⟩ := search_first q k
  have valid : b < P.actionCount s := by omega
  obtain ⟨attained, lowest⟩ := Process.greedy_unique (P := P) (γ := γ) (v := v) (s := s) (b := ⟨b, valid⟩)
    (fun a => by
      have bound := greatest a (by omega)
      rwa [known, known ⟨b, valid⟩] at bound)
    (fun a before => by
      have bound := first a before
      rwa [known, known ⟨b, valid⟩] at bound)
  rw [show k + 1 = P.actionCount s from count.symm] at found
  rw [found, attained, lowest, known ⟨b, valid⟩]

theorem actionValues_exact (described : m.Describes P) {goal : Goal (Extended K)}
    (discount : goal.discount = .ok (.finite γ)) (v : Fin n → K) (s : Fin n) :
    m.actionValues goal (s : Nat) (Reader.ofArray (exactVector v))
      = .ok ((List.ofFn (P.actionValue γ v s)).map Extended.finite) := by
  rw [Model.actionValues, described.actions s, Outcome.ok_bind, if_neg (by omega),
    positiveCount_exact described s, List.map_ofFn]
  exact Outcome.mapM_range fun a => actionValue_exact described discount v s a

end Values

namespace FlatModel

variable {α : Type} [Scalar α]

theorem foldlM_columns {next : Array Int} {probability reward : Array α}
    (probabilities : probability.size = next.size) (rewards : reward.size = next.size)
    (discount : α) (v : Reader α) (length : Nat) : ∀ (first : Nat) (start : α),
    first + length ≤ next.size →
    (List.range' first length).foldlM (fun (total : α) (i : Nat) => do
        let p ← entry probability i
        let r ← entry reward i
        let value ← v (← entry next i)
        return total + p * (r + discount * value)) start
      = (((next.extract first (first + length)).toList.zip
          ((probability.extract first (first + length)).toList.zip
            (reward.extract first (first + length)).toList)).map
          fun (i, p, r) => (⟨.index i, .real p, .real r⟩ : Transition α)).foldlM
        (fun (total : α) (t : Transition α) => do
          let value ← v (← t.next.position)
          return total + t.probability.value * (t.reward.value + discount * value)) start := by
  induction length with
  | zero => intro first start inside; simp
  | succ length ih =>
    intro first start inside
    have cell {β : Type} {xs : Array β} (size : xs.size = next.size) (bound : first < xs.size) :
        (xs.extract first (first + (length + 1))).toList
          = xs[first] :: (xs.extract (first + 1) (first + 1 + length)).toList := by
      rw [Array.toList_extract, Array.toList_extract, List.extract_eq_take_drop,
        List.extract_eq_take_drop, List.drop_eq_getElem_cons (by rw [Array.length_toList]; omega),
        show first + (length + 1) - first = length + 1 by omega,
        show first + 1 + length - (first + 1) = length by omega, List.take_succ_cons,
        Array.getElem_toList]
    rw [List.range'_succ, List.foldlM_cons, cell rfl (by omega),
      cell probabilities (by omega), cell rewards (by omega)]
    simp only [List.zip_cons_cons, List.map_cons, List.foldlM_cons, StateLabel.position,
      Outcome.ok_bind, Quantity.value]
    rw [entry_nat (by omega), entry_nat (by omega), entry_nat (by omega)]
    simp only [Outcome.ok_bind]
    cases v next[first] with
    | error e => rfl
    | ok value =>
      simp only [Outcome.ok_bind, Outcome.pure_eq]
      exact ih (first + 1) _ (by omega)

-- No law of arithmetic is used: the additions and multiplications come in the same order.
theorem pairValue_eq {m : FlatModel α} (covers : m.Covers) {s a : Nat}
    {ts : List (Transition α)} (known : m.transitions s a = .ok ts) (discount : α) (v : Reader α) :
    m.pairValue discount v (m.stateOffsets.getD s 0 + a) = backup discount v ts := by
  unfold transitions columns at known
  obtain ⟨c, read, same⟩ := Outcome.bind_ok.mp known
  obtain ⟨count, _, read⟩ := Outcome.bind_ok.mp read
  dsimp only at read
  obtain ⟨_, read⟩ := Outcome.unless_ok.mp read
  obtain ⟨base, atState, read⟩ := Outcome.bind_ok.mp read
  obtain ⟨first, atPair, read⟩ := Outcome.bind_ok.mp read
  obtain ⟨last, atNext, read⟩ := Outcome.bind_ok.mp read
  cases read
  cases same
  have offset : m.stateOffsets.getD s 0 = base := by
    rw [Array.getD_eq_getD_getElem?, entry_ok.mp atState, Option.getD_some]
  have lower : m.pairOffsets.getD (base + a) 0 = first := by
    rw [Array.getD_eq_getD_getElem?, (entry_ok (i := base + a)).mp atPair, Option.getD_some]
  have upper : m.pairOffsets.getD (base + a + 1) 0 = last := by
    rw [Array.getD_eq_getD_getElem?, (entry_ok (i := base + a + 1)).mp atNext, Option.getD_some]
  have inside := covers.pairs (base + a + 1)
  unfold pairValue backup
  dsimp only
  rw [offset, lower, upper]
  rw [upper] at inside
  rcases Nat.le_total first last with forward | backward
  · have columns := foldlM_columns covers.probability covers.reward discount v (last - first) first
      Scalar.zero (by omega)
    rwa [show first + (last - first) = last by omega] at columns
  · rw [Nat.sub_eq_zero_of_le backward]
    simp [Array.extract_empty_of_stop_le_start backward]

theorem greedyChoice_eq {m : FlatModel α} (covers : m.Covers) {goal : Goal α} {discount : α}
    (known : goal.discount = .ok discount) (v : Reader α) {s k : Nat} (positive : 0 < k)
    (count : m.actionCount s = .ok (k : Int))
    (outcomes : ∀ a < k, ∃ ts, m.transitions s a = .ok ts) :
    m.greedyChoice discount s v = (Model.flat m).greedyChoice goal s v := by
  have whole : (Model.flat m).actionCount s = .ok (k : Int) := count
  obtain ⟨upper, atNext, same⟩ := Outcome.bind_ok.mp count
  obtain ⟨lower, atState, same⟩ := Outcome.bind_ok.mp same
  have length : m.stateOffsets.getD (s + 1) 0 - m.stateOffsets.getD s 0 = k := by
    have difference : (upper : Int) - lower = k := Except.ok.inj same
    rw [Array.getD_eq_getD_getElem?, Array.getD_eq_getD_getElem?, (entry_ok (i := s + 1)).mp atNext,
      entry_ok.mp atState, Option.getD_some, Option.getD_some]
    omega
  have counted : (Model.flat m).positiveCount s = .ok k := Model.positiveCount_ok positive whole
  rw [Model.greedyChoice, counted, Outcome.ok_bind, FlatModel.greedyChoice, length]
  refine Outcome.foldlM_congr (fun best a member => ?_) _
  obtain ⟨ts, listed⟩ := outcomes a (List.mem_range.mp member)
  have listed' : (Model.flat m).transitions s a = .ok ts := listed
  rw [pairValue_eq covers listed, Model.actionValue, known, Outcome.ok_bind, listed', Outcome.ok_bind]

end FlatModel

end MarkovDecision
