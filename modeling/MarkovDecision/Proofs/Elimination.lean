import MarkovDecision.Linear.System
import MarkovDecision.Proofs.Extended

namespace MarkovDecision

namespace Equation

variable {K : Type}

def exact (e : Equation K) : Equation (Extended K) := ⟨e.coefficients.map .finite, .finite e.rhs⟩

theorem exact_ofFn {n : Nat} {f : Fin n → Extended K} {a : Fin n → K} (known : ∀ j, f j = .finite (a j))
    (b : K) : (⟨List.ofFn f, .finite b⟩ : Equation (Extended K)) = exact ⟨List.ofFn a, b⟩ := by
  rw [exact, List.map_ofFn]
  exact congrArg (Equation.mk · _) (congrArg List.ofFn (funext known))

def rest (e : Equation K) : Equation K := ⟨e.coefficients.tail, e.rhs⟩

theorem tail_exact (e : Equation K) : e.exact.tail = e.rest.exact :=
  congrArg (Equation.mk · _) List.map_tail.symm

variable [Field K]

def leading (e : Equation K) : K := e.coefficients.headD 0

def apply (e : Equation K) (xs : List K) : K := (List.zipWith (· * ·) e.coefficients xs).sum

def eliminate (pivot e : Equation K) : Equation K :=
  ⟨List.zipWith (fun x y => x - e.leading / pivot.leading * y) e.rest.coefficients pivot.rest.coefficients,
    e.rhs - e.leading / pivot.leading * pivot.rhs⟩

def solveLeading (e : Equation K) (xs : List K) : K := (e.rhs - e.rest.apply xs) / e.leading

theorem apply_cons {e : Equation K} (wide : e.coefficients ≠ []) (x : K) (xs : List K) :
    e.apply (x :: xs) = e.leading * x + e.rest.apply xs := by
  obtain ⟨cs, r⟩ := e
  cases cs with
  | nil => exact absurd rfl wide
  | cons c cs => exact List.sum_cons

theorem apply_zeros (e : Equation K) (n : Nat) : e.apply (List.replicate n 0) = 0 := by
  refine List.sum_eq_zero fun y member => ?_
  obtain ⟨i, inside, same⟩ := List.getElem_of_mem member
  rw [← same, List.getElem_zipWith, List.getElem_replicate, mul_zero]

theorem apply_ofFn {n : Nat} (a x : Fin n → K) (b : K) :
    (⟨List.ofFn a, b⟩ : Equation K).apply (List.ofFn x) = ∑ j, a j * x j := by
  have products : List.zipWith (· * ·) (List.ofFn a) (List.ofFn x) = List.ofFn fun j => a j * x j :=
    List.ext_getElem (by simp) fun i _ _ => by simp
  rw [apply, products, List.sum_ofFn]

theorem sum_eliminated (f : K) (as : List K) : ∀ (bs xs : List K), as.length = bs.length →
    (List.zipWith (· * ·) (List.zipWith (fun x y => x - f * y) as bs) xs).sum
      = (List.zipWith (· * ·) as xs).sum - f * (List.zipWith (· * ·) bs xs).sum := by
  induction as with
  | nil =>
    intro bs xs same
    obtain rfl := List.length_eq_zero_iff.mp same.symm
    simp
  | cons a as ih =>
    intro bs xs same
    cases bs with
    | nil => cases same
    | cons b bs =>
      cases xs with
      | nil => simp
      | cons x xs =>
        have later := ih bs xs (Nat.succ.inj same)
        simp only [List.zipWith_cons_cons, List.sum_cons, later]
        ring

theorem apply_eliminate {pivot e : Equation K}
    (same : pivot.coefficients.length = e.coefficients.length) (xs : List K) :
    (pivot.eliminate e).apply xs
      = e.rest.apply xs - e.leading / pivot.leading * pivot.rest.apply xs :=
  sum_eliminated _ _ _ xs (by
    change e.coefficients.tail.length = pivot.coefficients.tail.length
    rw [List.length_tail, List.length_tail, same])

theorem eliminate_length {pivot e : Equation K} {n : Nat} (width : pivot.coefficients.length = n + 1)
    (width' : e.coefficients.length = n + 1) : (pivot.eliminate e).coefficients.length = n := by
  simp [eliminate, rest, width, width']

variable [LinearOrder K] [FloorRing K]

theorem lead_exact (e : Equation K) : e.exact.lead = .finite e.leading := by
  obtain ⟨cs, r⟩ := e
  cases cs with
  | nil => exact Extended.zero_eq
  | cons c cs => rfl

theorem reduce_exact {pivot : Equation K} (nonzero : pivot.leading ≠ 0) (e : Equation K) :
    reduce pivot.exact e.exact = (pivot.eliminate e).exact := by
  unfold reduce
  dsimp only
  rw [lead_exact, lead_exact, Extended.finite_div nonzero, tail_exact, tail_exact]
  simp only [exact, eliminate, List.zipWith_map, List.map_zipWith, Extended.finite_mul,
    Extended.finite_sub]

theorem foldl_sub (cs : List K) : ∀ (xs : List K) (start : K),
    ((cs.map Extended.finite).zip (xs.map Extended.finite)).foldl (fun rest (c, x) => rest - c * x)
        (Extended.finite start)
      = .finite (start - (List.zipWith (· * ·) cs xs).sum) := by
  induction cs with
  | nil => intro xs start; simp
  | cons c cs ih =>
    intro xs start
    cases xs with
    | nil => simp
    | cons x xs =>
      simp only [List.map_cons, List.zip_cons_cons, List.foldl_cons, Extended.finite_mul,
        Extended.finite_sub, ih, List.zipWith_cons_cons, List.sum_cons, sub_add_eq_sub_sub]

theorem leadValue_exact {e : Equation K} (nonzero : e.leading ≠ 0) (xs : List K) :
    leadValue e.exact (xs.map .finite) = .finite (e.solveLeading xs) := by
  unfold leadValue
  rw [lead_exact, tail_exact]
  refine (congrArg (· / _) (foldl_sub e.rest.coefficients xs e.rhs)).trans ?_
  exact Extended.finite_div nonzero

theorem reduceSparse_exact {pivot e : Equation K} (nonzero : pivot.leading ≠ 0)
    (same : pivot.coefficients.length = e.coefficients.length) :
    reduceSparse pivot.exact e.exact = (pivot.eliminate e).exact := by
  unfold reduceSparse
  rw [lead_exact, Extended.zero_eq, Extended.eq_finite]
  by_cases zero : e.leading = 0
  · rw [if_pos (decide_eq_true zero)]
    have kept : pivot.eliminate e = e.rest := by
      unfold eliminate
      simp only [zero, zero_div, zero_mul, sub_zero]
      congr 1
      refine List.ext_getElem ?_ fun i _ _ => List.getElem_zipWith
      simp [rest, same]
    rw [kept, tail_exact]
  · rw [if_neg (by simpa using zero)]
    exact reduce_exact nonzero e

theorem leadValueSparse_exact {e : Equation K} (nonzero : e.leading ≠ 0) (xs : List K) :
    leadValueSparse e.exact (xs.map .finite) = .finite (e.solveLeading xs) := by
  have skipped : ∀ (entries : List (K × K)) (start : K),
      (entries.map fun e => ((.finite e.1 : Extended K), (.finite e.2 : Extended K))).foldl
        (fun rest (c, x) => if Scalar.eq c Scalar.zero then rest else rest - c * x) (Extended.finite start)
      = (entries.map fun e => ((.finite e.1 : Extended K), (.finite e.2 : Extended K))).foldl
        (fun rest (c, x) => rest - c * x) (Extended.finite start) := by
    intro entries
    induction entries with
    | nil => intro start; rfl
    | cons entry entries ih =>
      intro start
      simp only [List.map_cons, List.foldl_cons, Extended.zero_eq, Extended.eq_finite,
        Extended.finite_mul, Extended.finite_sub, decide_eq_true_eq] at ih ⊢
      by_cases zero : entry.1 = 0
      · rw [if_pos zero, zero, zero_mul, sub_zero]
        exact ih start
      · rw [if_neg zero]
        exact ih _
  rw [← leadValue_exact nonzero]
  have pairs : e.exact.tail.coefficients.zip (xs.map .finite)
      = (e.rest.coefficients.zip xs).map fun e => ((.finite e.1 : Extended K), (.finite e.2 : Extended K)) := by
    rw [tail_exact, exact, List.zip_map]
    rfl
  unfold leadValueSparse leadValue
  rw [pairs]
  exact congrArg (· / _) (skipped _ _)

end Equation

namespace LinearSystem

variable {K : Type} [Field K]

-- The equations of a square system that only zero solves if all right-hand sides are zero.
structure Regular (n : Nat) (es : List (Equation K)) : Prop where
  square : es.length = n
  width : ∀ e ∈ es, e.coefficients.length = n
  kernel : ∀ xs, xs.length = n → (∀ e ∈ es, e.apply xs = 0) → xs = List.replicate n 0

theorem Regular.wide {n : Nat} {es : List (Equation K)} (regular : Regular (n + 1) es) :
    ∀ e ∈ es, e.coefficients ≠ [] := by
  intro e member none
  have width := regular.width e member
  rw [none] at width
  cases width

theorem Regular.of_perm {n : Nat} {es fs : List (Equation K)} (regular : Regular n es)
    (perm : fs.Perm es) : Regular n fs where
  square := perm.length_eq.trans regular.square
  width e member := regular.width e (perm.mem_iff.mp member)
  kernel xs length zero := regular.kernel xs length fun e member => zero e (perm.mem_iff.mpr member)

theorem Regular.eliminated {n : Nat} {pivot : Equation K} {others : List (Equation K)}
    (regular : Regular (n + 1) (pivot :: others)) (nonzero : pivot.leading ≠ 0) :
    Regular n (others.map pivot.eliminate) where
  square := by
    rw [List.length_map]
    exact Nat.succ.inj regular.square
  width := by
    intro e member
    obtain ⟨f, listed, rfl⟩ := List.mem_map.mp member
    exact Equation.eliminate_length (regular.width _ List.mem_cons_self)
      (regular.width f (List.mem_cons_of_mem _ listed))
  kernel := by
    intro xs length zero
    -- the leading unknown that makes the pivot equation zero makes all others zero
    have whole := regular.kernel (-(pivot.rest.apply xs) / pivot.leading :: xs) (by simp [length]) <| by
      refine List.forall_mem_cons.mpr ⟨?_, fun e listed => ?_⟩
      · rw [Equation.apply_cons (regular.wide _ List.mem_cons_self)]
        field_simp
        ring
      · have reduced := zero _ (List.mem_map_of_mem listed)
        rw [Equation.apply_eliminate ((regular.width _ List.mem_cons_self).trans
          (regular.width e (List.mem_cons_of_mem _ listed)).symm)] at reduced
        rw [Equation.apply_cons (regular.wide e (List.mem_cons_of_mem _ listed)),
          sub_eq_zero.mp reduced]
        field_simp
        ring
    rw [List.replicate_succ] at whole
    exact (List.cons.inj whole).2

variable [LinearOrder K] [FloorRing K]

-- On exact numbers both ways to eliminate and to substitute back do the same.
structure Faithful (reduce : Equation (Extended K) → Equation (Extended K) → Equation (Extended K))
    (leadValue : Equation (Extended K) → List (Extended K) → Extended K) : Prop where
  reduces : ∀ pivot e : Equation K, pivot.leading ≠ 0 →
    pivot.coefficients.length = e.coefficients.length →
    reduce pivot.exact e.exact = (pivot.eliminate e).exact
  solves : ∀ (e : Equation K) (xs : List K), e.leading ≠ 0 →
    leadValue e.exact (xs.map .finite) = .finite (e.solveLeading xs)

theorem faithful_dense : Faithful (K := K) Equation.reduce Equation.leadValue :=
  ⟨fun _ e nonzero _ => Equation.reduce_exact nonzero e, fun _ xs nonzero =>
    Equation.leadValue_exact nonzero xs⟩

theorem faithful_sparse : Faithful (K := K) Equation.reduceSparse Equation.leadValueSparse :=
  ⟨fun _ _ nonzero same => Equation.reduceSparse_exact nonzero same, fun _ xs nonzero =>
    Equation.leadValueSparse_exact nonzero xs⟩

variable [IsStrictOrderedRing K]

theorem choosePivot_exact (es : List (Equation K)) (some : es ≠ []) :
    ∃ pivot others, choosePivot (es.map Equation.exact) = .some (pivot.exact, others.map Equation.exact) ∧
      (pivot :: others).Perm es ∧ ∀ e ∈ es, |e.leading| ≤ |pivot.leading| := by
  induction es with
  | nil => exact absurd rfl some
  | cons e es ih =>
    cases es with
    | nil => exact ⟨e, [], rfl, List.Perm.refl _, by simp⟩
    | cons e' es =>
      obtain ⟨best, others, found, perm, greatest⟩ := ih (List.cons_ne_nil _ _)
      rw [List.map_cons, choosePivot, found]
      dsimp only
      rw [Equation.lead_exact, Equation.lead_exact, Extended.abs_finite, Extended.abs_finite,
        Extended.lt_finite]
      rcases lt_or_ge |e.leading| |best.leading| with less | least
      · rw [if_pos (decide_eq_true less)]
        refine ⟨best, e :: others, rfl, (List.Perm.swap e best others).trans (perm.cons e), ?_⟩
        exact List.forall_mem_cons.mpr ⟨less.le, greatest⟩
      · rw [if_neg (by simpa using least)]
        refine ⟨e, e' :: es, rfl, List.Perm.refl _, ?_⟩
        exact List.forall_mem_cons.mpr ⟨le_refl _, fun other member => (greatest other member).trans least⟩

-- If every equation lacked the first unknown, that unknown could be anything.
theorem Regular.pivot_nonzero {n : Nat} {es : List (Equation K)} (regular : Regular (n + 1) es)
    {pivot : Equation K} (greatest : ∀ e ∈ es, |e.leading| ≤ |pivot.leading|) : pivot.leading ≠ 0 := by
  intro zero
  have absent : ∀ e ∈ es, e.leading = 0 := by
    intro e member
    have bound := greatest e member
    rw [zero, abs_zero] at bound
    exact abs_nonpos_iff.mp bound
  have free := regular.kernel (1 :: List.replicate n 0) (by simp) fun e member => by
    rw [Equation.apply_cons (regular.wide e member), absent e member, zero_mul, zero_add, Equation.apply_zeros]
  rw [List.replicate_succ] at free
  exact one_ne_zero (List.cons.inj free).1

variable {reduce : Equation (Extended K) → Equation (Extended K) → Equation (Extended K)}
  {leadValue : Equation (Extended K) → List (Extended K) → Extended K}

theorem elimination_solves (faithful : Faithful reduce leadValue) (n : Nat) :
    ∀ es : List (Equation K), Regular n es →
    ∃ ts xs, triangular reduce n (es.map Equation.exact) = some ts ∧
      backSubstitute leadValue ts = xs.map .finite ∧ xs.length = n ∧ ∀ e ∈ es, e.apply xs = e.rhs := by
  induction n with
  | zero =>
    intro es regular
    refine ⟨[], [], rfl, rfl, rfl, ?_⟩
    rw [List.length_eq_zero_iff.mp regular.square]
    simp
  | succ n ih =>
    intro es regular
    obtain ⟨pivot, others, found, perm, greatest⟩ := choosePivot_exact es fun none => by
      have square := regular.square
      rw [none] at square
      cases square
    have nonzero := regular.pivot_nonzero greatest
    have ordered := regular.of_perm perm
    obtain ⟨ts, xs, reduced, solved, length, holds⟩ := ih _ (ordered.eliminated nonzero)
    have same : ∀ e ∈ others, pivot.coefficients.length = e.coefficients.length := fun e member =>
      (ordered.width _ List.mem_cons_self).trans (ordered.width e (List.mem_cons_of_mem _ member)).symm
    have rows : (others.map Equation.exact).map (reduce pivot.exact)
        = (others.map pivot.eliminate).map Equation.exact := by
      rw [List.map_map, List.map_map]
      exact List.map_congr_left fun e member => faithful.reduces pivot e nonzero (same e member)
    refine ⟨pivot.exact :: ts, pivot.solveLeading xs :: xs, ?_, ?_, by simp [length], ?_⟩
    · rw [triangular, found]
      dsimp only
      rw [Equation.lead_exact, Extended.zero_eq, Extended.eq_finite, if_neg (by simpa using nonzero),
        rows, reduced]
      rfl
    · rw [backSubstitute, solved, faithful.solves pivot xs nonzero]
      rfl
    · intro e member
      rcases List.mem_cons.mp (perm.mem_iff.mpr member) with rfl | listed
      · rw [Equation.apply_cons (ordered.wide _ List.mem_cons_self), Equation.solveLeading]
        field_simp
        ring
      · have reduced := holds _ (List.mem_map_of_mem listed)
        rw [Equation.apply_eliminate (same e listed)] at reduced
        rw [Equation.apply_cons (ordered.wide e (List.mem_cons_of_mem _ listed)), Equation.solveLeading]
        have rhs : (pivot.eliminate e).rhs = e.rhs - e.leading / pivot.leading * pivot.rhs := rfl
        rw [rhs, sub_eq_sub_iff_add_eq_add] at reduced
        field_simp at reduced ⊢
        linear_combination reduced

section Indexed

variable {n : Nat} (A : Fin n → Fin n → K) (r : Fin n → K)

def equationsOf : List (Equation K) := List.ofFn fun i => ⟨List.ofFn (A i), r i⟩

theorem indexed_solves (faithful : Faithful reduce leadValue)
    (kernel : ∀ x : Fin n → K, (∀ i, ∑ j, A i j * x j = 0) → x = 0) :
    ∃ x : Fin n → K, (triangular reduce n ((equationsOf A r).map Equation.exact)).map
        (backSubstitute leadValue) = some ((List.ofFn x).map .finite) ∧
      ∀ i, ∑ j, A i j * x j = r i := by
  have listed : ∀ xs : List K, xs.length = n → ∃ x : Fin n → K, xs = List.ofFn x := by
    intro xs length
    subst length
    exact ⟨xs.get, (List.ofFn_get xs).symm⟩
  have regular : Regular n (equationsOf A r) := by
    refine ⟨List.length_ofFn, fun e member => ?_, fun xs length zero => ?_⟩
    · obtain ⟨i, rfl⟩ := List.mem_ofFn.mp member
      exact List.length_ofFn
    · obtain ⟨x, rfl⟩ := listed xs length
      rw [kernel x fun i => by rw [← zero _ (List.mem_ofFn.mpr ⟨i, rfl⟩), Equation.apply_ofFn]]
      exact List.ofFn_const n 0
  obtain ⟨ts, xs, reduced, solved, length, holds⟩ := elimination_solves faithful n _ regular
  obtain ⟨x, rfl⟩ := listed xs length
  refine ⟨x, by rw [reduced, Option.map_some, solved], fun i => ?_⟩
  rw [← Equation.apply_ofFn (A i) x (r i)]
  exact holds _ (List.mem_ofFn.mpr ⟨i, rfl⟩)

end Indexed

end LinearSystem

end MarkovDecision
