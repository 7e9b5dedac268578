import MarkovDecision.Bellman.Sweep
import MarkovDecision.Journal.Basic
import Mathlib

namespace MarkovDecision

namespace Outcome

variable {α β γ : Type}

@[simp] theorem ok_bind (x : β) (f : β → Outcome α γ) : (Except.ok x : Outcome α β) >>= f = f x := rfl

@[simp] theorem error_bind (e : Failure α) (f : β → Outcome α γ) :
    (Except.error e : Outcome α β) >>= f = .error e := rfl

@[simp] theorem pure_eq (x : β) : (pure x : Outcome α β) = .ok x := rfl

@[simp] theorem throw_eq (e : Failure α) : (throw e : Outcome α β) = .error e := rfl

@[simp] theorem ofOption_some (x : β) : (ofOption (some x) : Outcome α β) = .ok x := rfl

theorem ofOption_ok {x : Option β} {y : β} : (ofOption x : Outcome α β) = .ok y ↔ x = some y := by
  cases x <;> simp [ofOption]

theorem ofOption_error {x : Option β} {e : Failure α} (failed : (ofOption x : Outcome α β) = .error e) :
    e = .invalidInput := by
  cases x with
  | none => exact (Except.error.inj failed).symm
  | some b => cases failed

theorem bind_ok {x : Outcome α β} {f : β → Outcome α γ} {y : γ} :
    x >>= f = .ok y ↔ ∃ b, x = .ok b ∧ f b = .ok y := by
  cases x with
  | ok b => simp
  | error e => simp

theorem unless_ok {check : Bool} {e : Failure α} {f : PUnit → Outcome α β} {y : β} :
    (if check = true then (throw e : Outcome α PUnit) >>= f else f ()) = .ok y ↔
      check = false ∧ f () = .ok y := by
  cases check <;> simp

theorem unless_error {check : Bool} {e e' : Failure α} {f : PUnit → Outcome α β} :
    (if check = true then (throw e : Outcome α PUnit) >>= f else f ()) = .error e' ↔
      check = true ∧ e' = e ∨ check = false ∧ f () = .error e' := by
  cases check <;> simp [eq_comm]

theorem exists_ok {x : Outcome α β} (passed : x.isOk = true) : ∃ y, x = .ok y := by
  cases x with
  | error e => cases passed
  | ok y => exact ⟨y, rfl⟩

theorem foldlM_ok {f : β → γ → Outcome α β} {g : β → γ → β} {xs : List γ}
    (step : ∀ b, ∀ x ∈ xs, f b x = .ok (g b x)) (start : β) :
    xs.foldlM f start = .ok (xs.foldl g start) := by
  induction xs generalizing start with
  | nil => rfl
  | cons x rest ih =>
    rw [List.foldlM_cons, step start x List.mem_cons_self, ok_bind, List.foldl_cons]
    exact ih (fun b y member => step b y (List.mem_cons_of_mem x member)) _

theorem foldlM_congr {f g : β → γ → Outcome α β} {xs : List γ}
    (same : ∀ b, ∀ x ∈ xs, f b x = g b x) (start : β) : xs.foldlM f start = xs.foldlM g start := by
  induction xs generalizing start with
  | nil => rfl
  | cons x rest ih =>
    rw [List.foldlM_cons, List.foldlM_cons, same start x List.mem_cons_self]
    exact bind_congr fun next => ih (fun b y member => same b y (List.mem_cons_of_mem x member)) next

theorem foldlM_exists {f : β → γ → Outcome α β} {xs : List γ}
    (step : ∀ b, ∀ x ∈ xs, ∃ c, f b x = .ok c) (start : β) : ∃ last, xs.foldlM f start = .ok last := by
  induction xs generalizing start with
  | nil => exact ⟨start, rfl⟩
  | cons x rest ih =>
    obtain ⟨next, known⟩ := step start x List.mem_cons_self
    rw [List.foldlM_cons, known, ok_bind]
    exact ih (fun b y member => step b y (List.mem_cons_of_mem x member)) next

theorem foldlM_each {f : β → γ → Outcome α β} {xs : List γ} {start last : β}
    (done : xs.foldlM f start = .ok last) : ∀ x ∈ xs, ∃ b c, f b x = .ok c := by
  induction xs generalizing start with
  | nil =>
    intro x member
    cases member
  | cons x rest ih =>
    rw [List.foldlM_cons] at done
    obtain ⟨next, here, later⟩ := bind_ok.mp done
    exact List.forall_mem_cons.mpr ⟨⟨start, next, here⟩, ih later⟩

theorem foldlM_keeps {keeps : β → Prop} {f : β → γ → Outcome α β} {xs : List γ}
    (steps : ∀ b, ∀ x ∈ xs, ∀ c, keeps b → f b x = .ok c → keeps c) {start last : β} (opening : keeps start)
    (done : xs.foldlM f start = .ok last) : keeps last := by
  induction xs generalizing start with
  | nil =>
    cases done
    exact opening
  | cons x rest ih =>
    rw [List.foldlM_cons] at done
    obtain ⟨next, here, later⟩ := bind_ok.mp done
    exact ih (fun b y member => steps b y (List.mem_cons_of_mem x member))
      (steps start x List.mem_cons_self next opening here) later

theorem mapM_ok {f : β → Outcome α γ} {g : β → γ} {xs : List β} (step : ∀ x ∈ xs, f x = .ok (g x)) :
    xs.mapM f = .ok (xs.map g) := by
  induction xs with
  | nil => rfl
  | cons x rest ih =>
    rw [List.mapM_cons, step x List.mem_cons_self, ok_bind,
      ih fun y member => step y (List.mem_cons_of_mem x member)]
    rfl

theorem mapM_range {n : Nat} {f : Nat → Outcome α γ} {g : Fin n → γ}
    (step : ∀ i : Fin n, f (i : Nat) = .ok (g i)) : (List.range n).mapM f = .ok (List.ofFn g) := by
  rw [← List.map_coe_finRange_eq_range, List.mapM_map, List.ofFn_eq_map]
  exact mapM_ok fun i _ => step i

theorem mapM_forall₂ {f : β → Outcome α γ} {xs : List β} {ys : List γ} (done : xs.mapM f = .ok ys) :
    List.Forall₂ (fun x y => f x = .ok y) xs ys := by
  induction xs generalizing ys with
  | nil =>
    cases done
    exact .nil
  | cons x rest ih =>
    rw [List.mapM_cons] at done
    obtain ⟨y, first, done⟩ := bind_ok.mp done
    obtain ⟨later, mapped, same⟩ := bind_ok.mp done
    cases same
    exact .cons first (ih mapped)

theorem mapM_range_get {n : Nat} {f : Nat → Outcome α γ} {ys : List γ}
    (done : (List.range n).mapM f = .ok ys) :
    ys.length = n ∧ ∀ (i : Nat) (inside : i < ys.length), f i = .ok ys[i] := by
  have each := mapM_forall₂ done
  have length : n = ys.length := by simpa using each.length_eq
  refine ⟨length.symm, fun i inside => ?_⟩
  simpa using each.get (by simpa [length] using inside) inside

theorem mapM_range_ok {n : Nat} {f : Nat → Outcome α γ} {ys : List γ} (length : ys.length = n)
    (step : ∀ (i : Nat) (inside : i < ys.length), f i = .ok ys[i]) : (List.range n).mapM f = .ok ys := by
  subst length
  rw [mapM_range (g := fun i => ys[(i : Nat)]) fun i => step i i.isLt, List.ofFn_getElem]

theorem mapM_some {f : β → Option γ} {g : β → γ} {xs : List β} (step : ∀ x ∈ xs, f x = some (g x)) :
    xs.mapM f = some (xs.map g) := by
  induction xs with
  | nil => rfl
  | cons x rest ih =>
    rw [List.mapM_cons, step x List.mem_cons_self, Option.bind_eq_bind, Option.bind_some,
      ih fun y member => step y (List.mem_cons_of_mem x member)]
    rfl

theorem mapM_eq_some {f : β → Option γ} {xs : List β} {ys : List γ} :
    xs.mapM f = some ys ↔ List.Forall₂ (fun x y => f x = some y) xs ys := by
  induction xs generalizing ys with
  | nil =>
    rw [List.mapM_nil, List.forall₂_nil_left_iff]
    exact ⟨fun same => (Option.some.inj same).symm, fun same => congrArg some same.symm⟩
  | cons x rest ih =>
    simp only [List.mapM_cons, Option.bind_eq_bind, Option.bind_eq_some_iff, ih, List.forall₂_cons_left_iff]
    constructor
    · rintro ⟨y, here, zs, later, same⟩
      exact ⟨y, zs, here, later, (Option.some.inj same).symm⟩
    · rintro ⟨y, zs, here, later, rfl⟩
      exact ⟨y, here, zs, later, rfl⟩

theorem mapM_some_ofFn {n : Nat} {f : β → Option γ} {x : Fin n → β} {g : Fin n → γ}
    (step : ∀ i, f (x i) = some (g i)) : (List.ofFn x).mapM f = some (List.ofFn g) := by
  rw [List.ofFn_eq_map, List.mapM_map, List.ofFn_eq_map]
  exact mapM_some fun i _ => step i

@[simp] theorem map_ok (f : β → γ) (x : β) : (Except.ok x : Outcome α β).map f = .ok (f x) := rfl

@[simp] theorem map_error (f : β → γ) (e : Failure α) : (Except.error e : Outcome α β).map f = .error e := rfl

theorem map_eq_ok {x : Outcome α β} {f : β → γ} {c : γ} : x.map f = .ok c ↔ ∃ b, x = .ok b ∧ f b = c := by
  cases x <;> simp [map_error]

theorem map_eq_error {x : Outcome α β} {f : β → γ} {e : Failure α} : x.map f = .error e ↔ x = .error e := by
  cases x <;> simp [map_error]

theorem mapM_after {μ : Type → Type} [Monad μ] [LawfulMonad μ] {δ : Type} {f : δ → μ β} {g : δ → μ γ} {φ : β → γ}
    {xs : List δ} (same : ∀ x ∈ xs, g x = φ <$> f x) : xs.mapM g = List.map φ <$> xs.mapM f := by
  induction xs with
  | nil => simp
  | cons x rest ih =>
    rw [List.mapM_cons, List.mapM_cons, same x List.mem_cons_self,
      ih fun y member => same y (List.mem_cons_of_mem x member)]
    simp

theorem mapM_map {δ : Type} {f : δ → Outcome α β} {g : δ → Outcome α γ} {φ : β → γ} {xs : List δ}
    (same : ∀ x ∈ xs, g x = (f x).map φ) : xs.mapM g = (xs.mapM f).map (List.map φ) := mapM_after same

theorem mapM_congr {f g : β → Outcome α γ} {xs : List β} (same : ∀ x ∈ xs, f x = g x) : xs.mapM f = xs.mapM g := by
  have alike := mapM_after (φ := id) (f := g) (g := f) fun x member => (same x member).trans (id_map _).symm
  rwa [List.map_id_fun, id_map] at alike

theorem filterM_ok {f : β → Outcome α Bool} {keep : β → Bool} {xs : List β} (step : ∀ x ∈ xs, f x = .ok (keep x)) :
    xs.filterM f = .ok (xs.filter keep) := by
  have general : ∀ kept, xs.filterAuxM f kept = .ok ((xs.filter keep).reverse ++ kept) := by
    induction xs with
    | nil => exact fun kept => rfl
    | cons x rest ih =>
      intro kept
      rw [List.filterAuxM, step x List.mem_cons_self, ok_bind,
        ih fun y member => step y (List.mem_cons_of_mem x member)]
      cases choice : keep x <;> simp [choice]
  rw [List.filterM, general, ok_bind, List.append_nil, List.reverse_reverse]
  rfl

theorem mapM_error {f : β → Outcome α γ} {xs : List β} {e : Failure α} : xs.mapM f = .error e ↔
    ∃ before x after, xs = before ++ x :: after ∧ (∀ y ∈ before, ∃ z, f y = .ok z) ∧ f x = .error e := by
  induction xs with
  | nil => simp
  | cons x rest ih =>
    rw [List.mapM_cons]
    constructor
    · intro failed
      cases here : f x with
      | error e' =>
        rw [here] at failed
        cases failed
        exact ⟨[], x, rest, rfl, by simp, here⟩
      | ok z =>
        rw [here, ok_bind] at failed
        cases later : rest.mapM f with
        | ok zs =>
          rw [later] at failed
          cases failed
        | error e' =>
          rw [later] at failed
          cases failed
          obtain ⟨before, y, after, rfl, passed, stopped⟩ := ih.mp later
          exact ⟨x :: before, y, after, rfl, List.forall_mem_cons.mpr ⟨⟨z, here⟩, passed⟩, stopped⟩
    · rintro ⟨before, y, after, same, passed, stopped⟩
      cases before with
      | nil =>
        cases same
        rw [stopped, error_bind]
      | cons z before =>
        cases same
        obtain ⟨⟨u, first⟩, passed⟩ := List.forall_mem_cons.mp passed
        rw [first, ok_bind, ih.mpr ⟨before, y, after, rfl, passed, stopped⟩, error_bind]

theorem mapM_range_error {n : Nat} {f : Nat → Outcome α γ} {e : Failure α} : (List.range n).mapM f = .error e ↔
    ∃ s < n, (∀ r < s, ∃ z, f r = .ok z) ∧ f s = .error e := by
  rw [mapM_error]
  constructor
  · rintro ⟨before, s, after, split, passed, stopped⟩
    have place : (List.range n)[before.length]? = some s := by simp [split]
    obtain ⟨inside, same⟩ := List.getElem?_eq_some_iff.mp place
    rw [List.length_range] at inside
    rw [List.getElem_range] at same
    refine ⟨s, same ▸ inside, fun r below => passed r ?_, stopped⟩
    have cell : (List.range n)[r]? = before[r]? := by
      rw [split, List.getElem?_append_left (by omega)]
    rw [List.getElem?_range (by omega)] at cell
    exact List.mem_of_getElem? cell.symm
  · rintro ⟨s, inside, passed, stopped⟩
    obtain ⟨k, rfl⟩ := Nat.exists_eq_add_of_lt inside
    refine ⟨List.range s, s, (List.range k).map (s + 1 + ·), ?_, fun r member => passed r (List.mem_range.mp member),
      stopped⟩
    rw [show s + k + 1 = s + 1 + k by omega, List.range_add, List.range_succ, List.append_assoc]
    rfl

theorem forM_ok {f : β → Outcome α Unit} {xs : List β} :
    xs.forM f = .ok () ↔ ∀ x ∈ xs, f x = .ok () := by
  induction xs with
  | nil => simp [List.forM]
  | cons x rest ih =>
    change (f x >>= fun _ => rest.forM f) = .ok () ↔ _
    rw [bind_ok, List.forall_mem_cons, ← ih]
    exact ⟨fun ⟨_, here, later⟩ => ⟨here, later⟩, fun ⟨here, later⟩ => ⟨(), here, later⟩⟩

theorem bind_error {x : Outcome α β} {f : β → Outcome α γ} {e : Failure α} :
    x >>= f = .error e ↔ x = .error e ∨ ∃ b, x = .ok b ∧ f b = .error e := by
  cases x with
  | ok b => simp
  | error e' => simp

theorem forM_error {f : β → Outcome α Unit} {xs : List β} {e : Failure α} (failed : xs.forM f = .error e) :
    ∃ x ∈ xs, f x = .error e := by
  induction xs with
  | nil => cases failed
  | cons x rest ih =>
    rcases bind_error.mp failed with here | ⟨_, _, later⟩
    · exact ⟨x, List.mem_cons_self, here⟩
    · obtain ⟨y, member, stopped⟩ := ih later
      exact ⟨y, List.mem_cons_of_mem x member, stopped⟩

end Outcome

section Pairing

variable {β γ : Type} {related : β → γ → Prop}

theorem exists_left_of_forall₂ {xs : List β} {ys : List γ} (each : List.Forall₂ related xs ys) :
    ∀ y ∈ ys, ∃ x ∈ xs, related x y := by
  induction each with
  | nil =>
    intro y member
    cases member
  | cons first _ ih =>
    intro y member
    rcases List.mem_cons.mp member with rfl | later
    · exact ⟨_, List.mem_cons_self, first⟩
    · obtain ⟨x, inside, fits⟩ := ih y later
      exact ⟨x, List.mem_cons_of_mem _ inside, fits⟩

theorem exists_forall₂ {xs : List β} (partner : ∀ x ∈ xs, ∃ y, related x y) :
    ∃ ys, List.Forall₂ related xs ys := by
  induction xs with
  | nil => exact ⟨[], .nil⟩
  | cons x rest ih =>
    obtain ⟨y, fits⟩ := partner x List.mem_cons_self
    obtain ⟨later, each⟩ := ih fun z member => partner z (List.mem_cons_of_mem x member)
    exact ⟨y :: later, .cons fits each⟩

theorem forall₂_and_map {p : β → Prop} {f : β → γ} {xs : List β} {ys : List γ} :
    List.Forall₂ (fun x y => p x ∧ f x = y) xs ys ↔ (∀ x ∈ xs, p x) ∧ xs.map f = ys := by
  rw [List.forall₂_and_left, ← List.forall₂_map_left_iff (R := Eq), List.forall₂_eq_eq_eq]

end Pairing

theorem exists_list {β : Type} {k : Nat} {fits : Nat → β → Prop} (each : ∀ i < k, ∃ x, fits i x) :
    ∃ xs : List β, xs.length = k ∧ ∀ (i : Nat) (inside : i < xs.length), fits i xs[i] := by
  choose x known using fun i : Fin k => each i i.isLt
  refine ⟨List.ofFn x, List.length_ofFn, fun i inside => ?_⟩
  rw [List.getElem_ofFn]
  exact known ⟨i, by simpa using inside⟩

section Ranges

variable {β γ : Type} {n : Nat}

theorem range_map (f : Nat → β) : (List.range n).map f = List.ofFn fun i : Fin n => f i := by
  rw [← List.map_coe_finRange_eq_range, List.map_map, List.ofFn_eq_map]
  rfl

theorem zipIdx_ofFn (f : Fin n → β) : (List.ofFn f).zipIdx = List.ofFn fun i => (f i, (i : Nat)) :=
  List.ext_getElem (by simp) fun i _ _ => by simp

theorem toArray_getD (f : Fin n → β) (i : Fin n) (default : β) :
    (List.ofFn f).toArray.getD (i : Nat) default = f i := by
  simp [Array.getD]

theorem ofFn_cell (f : Fin n → β) (i : Fin n) (default : β) : (Array.ofFn f).getD (i : Nat) default = f i := by
  simp [Array.getD]

end Ranges

section Entries

variable {α β : Type}

theorem entry_nat {xs : Array β} {i : Nat} (inside : i < xs.size) :
    entry (α := α) xs (i : Int) = .ok xs[i] := by
  unfold entry indexFrom
  rw [if_pos (Int.natCast_nonneg i), if_pos (by omega)]
  simp [inside]

theorem entry_getD {xs : Array β} {i : Nat} (inside : i < xs.size) (default : β) :
    entry (α := α) xs (i : Int) = .ok (xs.getD i default) := by
  rw [entry_nat inside, Array.getD_eq_getD_getElem?, Array.getElem?_eq_getElem inside, Option.getD_some]

@[simp] theorem entry_ofFn {n : Nat} (f : Fin n → β) (s : Fin n) :
    entry (α := α) (Array.ofFn f) ((s : Nat) : Int) = .ok (f s) := by
  rw [entry_nat (by simp)]
  simp

theorem entry_ok {xs : Array β} {i : Nat} {x : β} :
    entry (α := α) xs (i : Int) = .ok x ↔ xs[i]? = some x := by
  by_cases inside : i < xs.size
  · rw [entry_nat inside, Array.getElem?_eq_getElem inside]
    simp
  · have missing : xs[i]? = none := Array.getElem?_eq_none (by omega)
    have outside : indexFrom xs.size (i : Int) = none := by
      unfold indexFrom
      rw [if_pos (Int.natCast_nonneg i), if_neg (by omega)]
    simp [entry, outside, missing]

theorem entry_failure {xs : Array β} {i : Int} {e : Failure α} (failed : entry xs i = .error e) : e = .index := by
  unfold entry at failed
  split at failed
  · cases failed
  · exact (Except.error.inj failed).symm

end Entries

namespace InPlace

variable {σ τ α β γ : Type}

theorem forM_congr {f g : β → InPlace σ α Unit} {xs : List β} (same : ∀ x ∈ xs, f x = g x) :
    xs.forM f = xs.forM g := by
  induction xs with
  | nil => rfl
  | cons x rest ih =>
    obtain ⟨here, later⟩ := List.forall_mem_cons.mp same
    change (f x >>= fun _ => rest.forM f) = (g x >>= fun _ => rest.forM g)
    rw [here, ih later]

@[simp] theorem runOn_pure (x : β) (s : σ) : (pure x : InPlace σ α β).runOn s = (.ok x, s) := rfl

@[simp] theorem runOn_throw (e : Failure α) (s : σ) :
    (throw e : InPlace σ α β).runOn s = (.error e, s) := rfl

@[simp] theorem runOn_get (s : σ) : (get : InPlace σ α σ).runOn s = (.ok s, s) := rfl

@[simp] theorem runOn_lift (x : Outcome α β) (s : σ) : (lift x : InPlace σ α β).runOn s = (x, s) := rfl

theorem lift_bind_congr {x : Outcome α β} {f g : β → InPlace σ α γ} (same : ∀ b, x = .ok b → f b = g b) :
    lift x >>= f = lift x >>= g := by
  cases x with
  | error e => rfl
  | ok b => exact same b rfl

theorem runOn_update {f : σ → Outcome α σ} {s s' : σ} (done : f s = .ok s') :
    (update f).runOn s = (.ok (), s') := by
  simp only [runOn, update, ExceptT.run, ExceptT.mk, StateT.run, done]

theorem runOn_bind (x : InPlace σ α β) (f : β → InPlace σ α γ) (s : σ) :
    (x >>= f).runOn s = match x.runOn s with
      | (.ok b, s') => (f b).runOn s'
      | (.error e, s') => (.error e, s') := by
  unfold runOn
  rw [ExceptT.run_bind, StateT.run_bind]
  rcases x.run.run s with ⟨_ | _, _⟩ <;> rfl

theorem runOn_bind_ok {x : InPlace σ α β} {f : β → InPlace σ α γ} {s s' : σ} {b : β}
    (done : x.runOn s = (.ok b, s')) : (x >>= f).runOn s = (f b).runOn s' := by
  rw [runOn_bind, done]

theorem runOn_attempt {x : InPlace σ α Unit} {s s' : σ} (done : x.runOn s = (.ok (), s')) :
    (attempt x).runOn s = (.ok none, s') := by
  unfold runOn at done
  simp only [runOn, attempt, ExceptT.run, ExceptT.mk, StateT.run] at done ⊢
  rw [done]

theorem runOn_of_attempt {x : InPlace σ α Unit} {s s' : σ} (clean : (attempt x).runOn s = (.ok none, s')) :
    x.runOn s = (.ok (), s') := by
  unfold runOn at clean ⊢
  simp only [attempt, ExceptT.run, ExceptT.mk, StateT.run] at clean ⊢
  split at clean
  · rename_i ran
    cases clean
    exact ran
  · cases clean

theorem attempt_runOn (c : InPlace σ α Unit) (s : σ) : (attempt c).runOn s
    = (.ok (match (c.runOn s).1 with | .ok _ => none | .error e => some e), (c.runOn s).2) := by
  unfold runOn
  simp only [attempt, ExceptT.run, ExceptT.mk, StateT.run]
  rcases c s with ⟨_ | _, _⟩ <;> rfl

theorem runOn_bind_eq_ok {x : InPlace σ α β} {f : β → InPlace σ α γ} {s t : σ} {c : γ}
    (done : (x >>= f).runOn s = (.ok c, t)) :
    ∃ b s', x.runOn s = (.ok b, s') ∧ (f b).runOn s' = (.ok c, t) := by
  rw [runOn_bind] at done
  rcases ran : x.runOn s with ⟨b | e, s'⟩
  · rw [ran] at done
    cases done
  · rw [ran] at done
    exact ⟨_, s', rfl, done⟩

theorem lift_eq_ok {x : Outcome α β} {s t : σ} {b : β}
    (done : (lift x : InPlace σ α β).runOn s = (.ok b, t)) : x = .ok b ∧ t = s := by
  cases done
  exact ⟨rfl, rfl⟩

def returns (x : InPlace σ α β) (s : σ) (test : β → Bool) : Bool :=
  match (x.runOn s).1 with
  | .ok b => test b
  | .error _ => false

theorem runOn_of_returns {x : InPlace σ α β} {s : σ} {test : β → Bool}
    (passed : x.returns s test = true) : ∃ b s', x.runOn s = (.ok b, s') ∧ test b = true := by
  unfold returns at passed
  rcases ran : x.runOn s with ⟨_ | b, s'⟩
  · rw [ran] at passed
    cases passed
  · rw [ran] at passed
    exact ⟨b, s', rfl, passed⟩

-- Whatever the memory holds, the computation ends well and with this result.
def Yields (x : InPlace σ α β) (b : β) : Prop := ∀ s, ∃ s', x.runOn s = (.ok b, s')

theorem yields_lift {x : Outcome α β} {b : β} (known : x = .ok b) : (lift x : InPlace σ α β).Yields b :=
  fun s => ⟨s, by rw [runOn_lift, known]⟩

theorem Yields.bind {x : InPlace σ α β} {f : β → InPlace σ α γ} {b : β} {c : γ} (first : x.Yields b)
    (rest : (f b).Yields c) : (x >>= f).Yields c := by
  intro s
  obtain ⟨s', done⟩ := first s
  rw [runOn_bind_ok done]
  exact rest s'

end InPlace

namespace Journaled

variable {α : Type}

theorem note_runOn (e : Event α) (j : Journal α) : (note e).runOn j = (.ok (), j.push e) := rfl

theorem note_yields (e : Event α) : (note e).Yields () := fun j => ⟨j.push e, note_runOn e j⟩

theorem call_yields (c : BackendCall α) : (call c).Yields () := note_yields _

theorem begin_yields {settings : Settings α} (printable : (settings.verbose && settings.lineLength.isNone) = false)
    (algorithm column : String) (o : Objective α) (states : Nat) :
    (begin settings algorithm column o states).Yields () := by
  unfold begin
  rw [printable]
  exact note_yields _

theorem warnings_push (j : Journal α) {e : Event α} (quiet : ∀ w, e ≠ .warning w) :
    Journal.warnings (j.push e) = j.warnings := by
  unfold Journal.warnings
  rw [Array.toList_push, List.filterMap_append]
  cases e with
  | warning w => exact absurd rfl (quiet w)
  | _ => exact List.append_nil _

theorem warnings_push_warning (j : Journal α) (w : Warning α) :
    Journal.warnings (j.push (.warning w)) = j.warnings ++ [w] := by
  unfold Journal.warnings
  rw [Array.toList_push, List.filterMap_append]
  rfl

theorem rows_push (j : Journal α) {e : Event α} (quiet : ∀ step value, e ≠ .row step value) :
    Journal.rows (j.push e) = j.rows := by
  unfold Journal.rows
  rw [Array.toList_push, List.filterMap_append]
  cases e with
  | row step value => exact absurd rfl (quiet step value)
  | _ => exact List.append_nil _

theorem rows_push_row (j : Journal α) (step : Nat) (value : Quantity α) :
    Journal.rows (j.push (.row step value)) = j.rows ++ [(step, value)] := by
  unfold Journal.rows
  rw [Array.toList_push, List.filterMap_append]
  rfl

theorem begin_ok {settings : Settings α} {algorithm column : String} {o : Objective α} {states : Nat}
    {j k : Journal α} (opened : (begin settings algorithm column o states).runOn j = (.ok (), k)) :
    (settings.verbose && settings.lineLength.isNone) = false ∧ k = j.push (.opening algorithm column o states) := by
  unfold begin at opened
  dsimp only at opened
  split at opened
  · obtain ⟨_, _, _, broken⟩ := InPlace.runOn_bind_eq_ok opened
    obtain ⟨_, _, thrown, _⟩ := InPlace.runOn_bind_eq_ok broken
    cases thrown
  · rename_i printable
    rw [note_runOn] at opened
    cases opened
    exact ⟨Bool.eq_false_iff.mpr printable, rfl⟩

theorem begin_error {settings : Settings α} {algorithm column : String} {o : Objective α} {states : Nat}
    {j k : Journal α} {e : Failure α} (opened : (begin settings algorithm column o states).runOn j = (.error e, k)) :
    (settings.verbose && settings.lineLength.isNone) = true := by
  by_contra printable
  obtain ⟨_, opening⟩ := begin_yields (Bool.eq_false_iff.mpr printable) algorithm column o states j
  cases opened.symm.trans opening

theorem begin_rows {settings : Settings α} {algorithm column : String} {o : Objective α} {states : Nat} {j k : Journal α}
    (opened : (begin settings algorithm column o states).runOn j = (.ok (), k)) : k.rows = j.rows := by
  rw [(begin_ok opened).2]
  exact rows_push j (by simp)

end Journaled

end MarkovDecision
