import MarkovDecision.Model.Reading
import MarkovDecision.Proofs.ExactSums
import MarkovDecision.Proofs.Listings

namespace MarkovDecision

section Laid

variable {α : Type} [Scalar α] {s a : Nat}

namespace FlatModel

structure Decodes (f : FlatModel α) (rows : List (List (Columns α))) : Prop where
  states : f.stateCount = rows.length
  stateStart : f.stateOffsets[0]? = some 0
  stateSteps : f.stateOffsets.toList.Pairwise (· < ·)
  stateEnd : f.stateOffsets[rows.length]? = some (f.pairOffsets.size - 1)
  pairStart : f.pairOffsets[0]? = some 0
  pairSteps : f.pairOffsets.toList.Pairwise (· < ·)
  pairEnd : f.pairOffsets.back? = some f.next.size
  columns : f.probability.size = f.next.size ∧ f.reward.size = f.next.size
  outcomes : ∀ (s : Nat) (inside : s < rows.length) (a : Nat) (within : a < rows[s].length),
    f.transitions (s : Nat) (a : Nat) = .ok rows[s][a].transitions
  elsewhere : ∀ (s : Nat) (inside : s < rows.length) (a : Int), ¬(0 ≤ a ∧ a < rows[s].length) →
    f.columns (s : Nat) a = .error (.actionIndex a (s : Nat))
  expected : ∀ (s : Nat) (inside : s < rows.length) (a : Nat) (within : a < rows[s].length),
    ∃ base, f.stateOffsets[s]? = some base ∧
      f.expectedReward[base + a]? = some (Scalar.sum (List.zipWith (· * ·) rows[s][a].probability rows[s][a].reward))

theorem expectedReward_columns {f : FlatModel α} {s a base : Nat} {c : Columns α}
    (found : f.stateOffsets[s]? = some base) (known : f.columns (s : Nat) (a : Nat) = .ok c) :
    f.expectedReward[base + a]? = some (Scalar.sum (List.zipWith (· * ·) c.probability c.reward)) := by
  obtain ⟨count, _, known⟩ := Outcome.bind_ok.mp known
  dsimp only at known
  obtain ⟨_, known⟩ := Outcome.unless_ok.mp known
  obtain ⟨base', here, known⟩ := Outcome.bind_ok.mp known
  obtain ⟨first, lower, known⟩ := Outcome.bind_ok.mp known
  obtain ⟨last, upper, known⟩ := Outcome.bind_ok.mp known
  cases known
  obtain rfl : base = base' := Option.some.inj (found.symm.trans (entry_ok.mp here))
  have lower : f.pairOffsets[base + a]? = some first := entry_ok.mp (by exact_mod_cast lower)
  have upper : f.pairOffsets[base + a + 1]? = some last := entry_ok.mp (by exact_mod_cast upper)
  obtain ⟨inside, _⟩ := Array.getElem?_eq_some_iff.mp upper
  have below : base + a < f.pairOffsets.size - 1 := by omega
  rw [expectedReward, Array.getElem?_map, Array.getElem?_range, if_pos below, Option.map_some]
  simp only [Array.getD_eq_getD_getElem?, lower, upper, Option.getD_some]
  rw [Scalar.sum, ← List.map_uncurry_zip_eq_zipWith, List.foldl_map]
  rfl

theorem laid_decodes {rows : List (List (Columns α))} {states : Nat} {tolerance : α}
    (each : ∀ row ∈ rows, row ≠ [] ∧ ∀ c ∈ row, c.Fits states tolerance) : (laid rows).Decodes rows := by
  have admissible : ∀ row ∈ rows, ∀ c ∈ row, (ActionArrays.ofColumns c).Admissible states tolerance :=
    fun row inRows c inRow => ((each row inRows).2 c inRow).admissible
  have lists := laid_lists admissible
  have nonempty : ∀ m ∈ rows.map List.length, 0 < m := by
    intro m member
    obtain ⟨row, inRows, rfl⟩ := List.mem_map.mp member
    exact List.length_pos_iff.mpr (each row inRows).1
  have filled : ∀ m ∈ rows.flatten.map fun c => c.next.length, 0 < m := by
    intro m member
    obtain ⟨c, inPairs, rfl⟩ := List.mem_map.mp member
    obtain ⟨row, inRows, inRow⟩ := List.mem_flatten.mp inPairs
    exact List.length_pos_iff.mpr ((each row inRows).2 c inRow).nonempty
  have covers := lists.covers
  refine ⟨lists.states, ?_, ?_, ?_, ?_, ?_, ?_, ⟨covers.probability, covers.reward⟩, lists.outcomes,
    fun s inside a outside => columns_elsewhere (lists.actions s inside) outside, fun s inside a within => ?_⟩
  · rw [laid_stateOffsets, offsets_getElem? _ (Nat.zero_le _)]
    rfl
  · rw [laid_stateOffsets]
    exact offsets_sorted nonempty
  · rw [laid_stateOffsets, laid_pairOffsets, offsets_getElem? _ (by simp), offsets_size]
    rw [List.take_of_length_le (by simp), List.length_map, List.length_flatten, Nat.add_sub_cancel]
  · rw [laid_pairOffsets, offsets_getElem? _ (Nat.zero_le _)]
    rfl
  · rw [laid_pairOffsets]
    exact offsets_sorted filled
  · rw [laid_pairOffsets, laid_next, offsets_back]
  · have even := laid_even admissible
    have length : (rows.map (List.map ActionArrays.ofColumns)).length = rows.length := List.length_map _
    have read := layout_columns even (s := s) (a := a) (by rwa [length]) (by simpa using within)
    have base : (laid rows).stateOffsets[s]? = some ((rows.map List.length).take s).sum := by
      rw [laid_stateOffsets]
      exact offsets_getElem? _ (by simpa using inside.le)
    refine ⟨_, base, ?_⟩
    have expected := expectedReward_columns base read
    simpa [ActionArrays.ofColumns, Tensor.ofVector] using expected

end FlatModel

theorem Columns.transitions_probability {c : Columns α} (even : c.Even) :
    c.transitions.map (·.probability.value) = c.probability :=
  List.ext_getElem (by simp [Columns.transitions, ← even.2, ← even.1]) fun k _ _ => by
    simp [Columns.transitions, Quantity.value]

theorem columnsOf_transitions {c : Columns α} (even : c.Even) (words : ∀ i ∈ c.next, Literal.inWord i = true) :
    Model.columnsOf c.transitions = .ok c := by
  have probability := Columns.transitions_probability even
  obtain ⟨first, second⟩ := even
  have labels : c.transitions.map (·.next) = c.next.map .index :=
    List.ext_getElem (by simp [Columns.transitions, ← second, ← first]) fun k _ _ => by simp [Columns.transitions]
  have reward : c.transitions.map (·.reward.value) = c.reward :=
    List.ext_getElem (by simp [Columns.transitions, ← second, ← first]) fun k _ _ => by
      simp [Columns.transitions, Quantity.value]
  have next : c.transitions.mapM (fun t => (Outcome.ofOption t.next.column? : Outcome α Int)) = .ok c.next := by
    have named : (c.transitions.map (·.next)).mapM
        (fun label => (Outcome.ofOption label.column? : Outcome α Int)) = .ok c.next := by
      rw [labels, List.mapM_map]
      refine (Outcome.mapM_ok (g := id) fun i member => ?_).trans (by rw [List.map_id])
      change Outcome.ofOption (if Literal.inWord i then some i else none) = _
      rw [if_pos (words i member)]
      rfl
    rwa [List.mapM_map] at named
  rw [Model.columnsOf, next, Outcome.ok_bind, probability, reward]
  rfl

namespace FlatModel

theorem laid_columned {rows : List (List (Columns α))} (lists : (laid rows).Lists rows)
    (each : ∀ row ∈ rows, ∀ c ∈ row, c.Even ∧ ∀ i ∈ c.next, Literal.inWord i = true) :
    (Model.flat (laid rows)).Columned rows :=
  ⟨lists.states.symm, lists.actions, fun s inside a within => ⟨_, lists.outcomes s inside a within,
    columnsOf_transitions (each _ (List.getElem_mem inside) _ (List.getElem_mem within)).1
      (each _ (List.getElem_mem inside) _ (List.getElem_mem within)).2⟩⟩

variable {table : List (List (Listing α))} {rows : List (List (Columns α))} {tolerance : α}

theorem Takes.words (takes : Takes tolerance table rows) :
    ∀ row ∈ rows, ∀ c ∈ row, ∀ i ∈ c.next, Literal.inWord i = true := by
  intro row inRows c inRow i member
  obtain ⟨_, _, _, accepts⟩ := exists_left_of_forall₂ takes.states row inRows
  obtain ⟨_, _, accepted⟩ := exists_left_of_forall₂ accepts c inRow
  exact Listing.columns?_words accepted.1 i member

theorem Takes.flatten (takes : Takes defaultTolerance table rows) :
    (Model.flat (laid rows)).flatten false = .ok (laid rows) := by
  have columned := laid_columned (laid_lists fun row member => (takes.buildable.2 row member).2)
    fun row inRows c inRow => ⟨((takes.fits row inRows).2 c inRow).even, takes.words row inRows c inRow⟩
  have kept : rows.map (List.map (Columns.kept false)) = rows := by
    have same : (Columns.kept false : Columns α → Columns α) = id := rfl
    rw [same, List.map_id_fun, List.map_id]
  rw [columned.flatten false, kept]
  exact build_laid takes.buildable.1 takes.buildable.2

end FlatModel

end Laid

section Exact

variable {K : Type} [Field K] [LinearOrder K] [FloorRing K]

namespace Quantity

def number : Quantity K → K
  | whole n => n
  | real x => x

def integer : Quantity K → Int
  | whole n => n
  | real x => if x < 0 then ⌈x⌉ else ⌊x⌋

def exact : Quantity K → Quantity (Extended K)
  | whole n => .whole n
  | real x => .real (.finite x)

theorem exact_word? (q : Quantity K) : q.exact.word? = if Literal.inWord q.integer then some q.integer else none := by
  cases q <;> rfl

variable [IsStrictOrderedRing K]

theorem exact_value? (q : Quantity K) : q.exact.value? = some (.finite q.number) := by
  cases q with
  | whole n => exact value?_finite (value_whole n)
  | real x => rfl

theorem integer_nonneg (q : Quantity K) : 0 ≤ q.integer ↔ -1 < q.number := by
  cases q with
  | whole n =>
    change 0 ≤ n ↔ (-1 : K) < (n : K)
    rw [← Int.cast_one, ← Int.cast_neg, Int.cast_lt]
    omega
  | real x =>
    change 0 ≤ (if x < 0 then ⌈x⌉ else ⌊x⌋) ↔ -1 < x
    split
    · have strict : -1 < ⌈x⌉ ↔ ((-1 : Int) : K) < x := Int.lt_ceil
      rw [Int.cast_neg, Int.cast_one] at strict
      rw [← strict]
      omega
    · rename_i nonnegative
      have nonnegative := not_lt.mp nonnegative
      exact iff_of_true (Int.floor_nonneg.mpr nonnegative) (neg_one_lt_zero.trans_le nonnegative)

theorem integer_lt (q : Quantity K) {n : Nat} (positive : 0 < n) : q.integer < n ↔ q.number < n := by
  cases q with
  | whole m =>
    change m < n ↔ (m : K) < (n : K)
    rw [← Int.cast_natCast (R := K), Int.cast_lt]
  | real x =>
    change (if x < 0 then ⌈x⌉ else ⌊x⌋) < n ↔ x < n
    split
    · rename_i negative
      have ceil : ⌈x⌉ ≤ 0 := Int.ceil_le.mpr (by simpa using negative.le)
      exact iff_of_true (by omega) (negative.trans_le (Nat.cast_nonneg n))
    · rw [Int.floor_lt, Int.cast_natCast]

end Quantity

namespace Listing

def exact (c : Listing K) : Listing (Extended K) :=
  ⟨c.next.map Quantity.exact, c.probability.map Quantity.exact, c.reward.map Quantity.exact⟩

def columns (c : Listing K) : Columns (Extended K) :=
  ⟨c.next.map Quantity.integer, c.probability.map fun p => .finite p.number, c.reward.map fun r => .finite r.number⟩

def expected (c : Listing K) : K :=
  (List.zipWith (fun p r => p.number * r.number) c.probability c.reward).sum

structure Distributes (states : Nat) (tolerance : K) (c : Listing K) : Prop where
  even : c.next.length = c.probability.length ∧ c.probability.length = c.reward.length
  nonempty : c.next ≠ []
  inside : ∀ i ∈ c.next, -1 < i.number ∧ i.number < states ∧ i.number < 2 ^ 63
  bounded : ∀ p ∈ c.probability, 0 < p.number ∧ p.number ≤ 1 + tolerance
  balanced : |(c.probability.map Quantity.number).sum - 1| ≤ tolerance

variable [IsStrictOrderedRing K] {c : Listing K} {states : Nat} {tolerance : K}

theorem exact_columns? {columns : Columns (Extended K)} : c.exact.columns? = some columns ↔
    columns = c.columns ∧ ∀ i ∈ c.next, Literal.inWord i.integer = true := by
  have value (qs : List (Quantity K)) :
      (qs.map Quantity.exact).mapM Quantity.value? = some (qs.map fun q => Extended.finite q.number) := by
    rw [List.mapM_map]
    exact Outcome.mapM_some fun q _ => q.exact_value?
  have word {next : List Int} : (c.next.map Quantity.exact).mapM Quantity.word? = some next ↔
      (∀ i ∈ c.next, Literal.inWord i.integer = true) ∧ c.next.map Quantity.integer = next := by
    have kept (q : Quantity K) (i : Int) :
        q.exact.word? = some i ↔ Literal.inWord q.integer = true ∧ q.integer = i := by
      rw [q.exact_word?]
      simp
    rw [Outcome.mapM_eq_some, List.forall₂_map_left_iff]
    simp only [kept]
    exact forall₂_and_map
  rw [Listing.columns?, exact, value, value]
  constructor
  · intro read
    obtain ⟨next, known, read⟩ := Option.bind_eq_some_iff.mp read
    obtain ⟨words, rfl⟩ := word.mp known
    cases read
    exact ⟨rfl, words⟩
  · rintro ⟨rfl, words⟩
    rw [word.mpr ⟨words, rfl⟩]
    rfl

theorem columns_fits (positive : 0 < states) :
    (c.columns.Fits states (.finite tolerance) ∧ ∀ i ∈ c.next, Literal.inWord i.integer = true) ↔
      c.Distributes states tolerance := by
  have even : c.columns.Even ↔ c.next.length = c.probability.length ∧ c.probability.length = c.reward.length := by
    simp [Columns.Even, columns]
  have nonempty : c.columns.next ≠ [] ↔ c.next ≠ [] := List.map_eq_nil_iff.not
  have inside : (c.columns.Inside states ∧ ∀ i ∈ c.next, Literal.inWord i.integer = true) ↔
      ∀ i ∈ c.next, -1 < i.number ∧ i.number < states ∧ i.number < 2 ^ 63 := by
    have place (i : Quantity K) : ((0 ≤ i.integer ∧ i.integer < states) ∧ Literal.inWord i.integer = true) ↔
        -1 < i.number ∧ i.number < states ∧ i.number < 2 ^ 63 := by
      have limit : i.integer < 2 ^ 63 ↔ i.number < 2 ^ 63 := by
        simpa only [Nat.cast_pow, Nat.cast_ofNat] using i.integer_lt (n := 2 ^ 63) (Nat.two_pow_pos 63)
      rw [← i.integer_nonneg, ← i.integer_lt positive, ← limit]
      rw [Literal.inWord_iff]
      omega
    simp only [Columns.Inside, columns, List.forall_mem_map, ← forall₂_and, ← place]
  have bounded : c.columns.Bounded (.finite tolerance) ↔
      ∀ p ∈ c.probability, 0 < p.number ∧ p.number ≤ 1 + tolerance := by
    simp [Columns.Bounded, columns]
  have balanced : c.columns.Balanced (.finite tolerance) ↔
      |(c.probability.map Quantity.number).sum - 1| ≤ tolerance := by
    have total : Scalar.abs (Scalar.arraySum c.columns.probability - Scalar.one)
        = .finite |(c.probability.map Quantity.number).sum - 1| := Extended.deviation_exact Quantity.number c.probability
    rw [Columns.Balanced, total]
    simp
  constructor
  · rintro ⟨fits, words⟩
    exact ⟨even.mp fits.even, nonempty.mp fits.nonempty, inside.mp ⟨fits.inside, words⟩, bounded.mp fits.bounded,
      balanced.mp fits.balanced⟩
  · intro listed
    obtain ⟨within, words⟩ := inside.mpr listed.inside
    exact ⟨⟨even.mpr listed.even, nonempty.mpr listed.nonempty, within, bounded.mpr listed.bounded,
      balanced.mpr listed.balanced⟩, words⟩

theorem accepts_exact (positive : 0 < states) {columns : Columns (Extended K)} :
    c.exact.Accepts states (.finite tolerance) columns ↔ c.Distributes states tolerance ∧ c.columns = columns := by
  rw [← columns_fits positive, Accepts, exact_columns?]
  constructor
  · rintro ⟨⟨rfl, words⟩, fits⟩
    exact ⟨⟨fits, words⟩, rfl⟩
  · rintro ⟨⟨fits, words⟩, rfl⟩
    exact ⟨⟨rfl, words⟩, fits⟩

end Listing

namespace FlatModel

variable [IsStrictOrderedRing K] {t : K} {table : List (List (Listing K))}

theorem takes_exact {rows : List (List (Columns (Extended K)))} :
    Takes (.finite t) (table.map (List.map Listing.exact)) rows ↔
      (table ≠ [] ∧ ∀ actions ∈ table, actions ≠ [] ∧ ∀ c ∈ actions, c.Distributes table.length t) ∧
        table.map (List.map Listing.columns) = rows := by
  by_cases none : table = []
  · subst none
    exact iff_of_false (fun takes => takes.nonempty rfl) fun accepted => accepted.1.1 rfl
  · have positive := List.length_pos_iff.mpr none
    have row (actions : List (Listing K)) (row : List (Columns (Extended K))) :
        Listing.RowAccepts table.length (.finite t) (actions.map Listing.exact) row ↔
          (actions ≠ [] ∧ ∀ c ∈ actions, c.Distributes table.length t) ∧ actions.map Listing.columns = row := by
      rw [Listing.RowAccepts, List.forall₂_map_left_iff, and_assoc, ← forall₂_and_map]
      simp only [Listing.accepts_exact positive, ne_eq, List.map_eq_nil_iff]
    have whole : List.Forall₂ (Listing.RowAccepts table.length (.finite t)) (table.map (List.map Listing.exact)) rows ↔
        (∀ actions ∈ table, actions ≠ [] ∧ ∀ c ∈ actions, c.Distributes table.length t) ∧
          table.map (List.map Listing.columns) = rows := by
      rw [List.forall₂_map_left_iff, ← forall₂_and_map]
      simp only [row]
    rw [and_assoc, ← whole]
    constructor
    · intro takes
      have states := takes.states
      rw [List.length_map] at states
      exact ⟨none, states⟩
    · rintro ⟨_, states⟩
      refine ⟨by simpa using none, ?_⟩
      rwa [List.length_map]

theorem ofListings_exact {f : FlatModel (Extended K)} :
    ofListings (.finite t) (table.map (List.map Listing.exact)) = .ok f ↔
      (table ≠ [] ∧ ∀ actions ∈ table, actions ≠ [] ∧ ∀ c ∈ actions, c.Distributes table.length t) ∧
        f = laid (table.map (List.map Listing.columns)) := by
  rw [ofListings_ok]
  simp only [takes_exact]
  constructor
  · rintro ⟨_, ⟨accepted, rfl⟩, rfl⟩
    exact ⟨accepted, rfl⟩
  · rintro ⟨accepted, rfl⟩
    exact ⟨_, ⟨accepted, rfl⟩, rfl⟩

theorem structural_exact (words : ∀ actions ∈ table, ∀ c ∈ actions, ∀ i ∈ c.next, Literal.inWord i.integer = true)
    {tolerance : Extended K} {e : Failure (Extended K)}
    (failed : ofListings tolerance (table.map (List.map Listing.exact)) = .error e) : e.kind = .structural := by
  rcases (ofListings_error.mp failed).kind with structural | ⟨_, actions, inTable, c, inActions, missing⟩
  · exact structural
  · obtain ⟨listed, given, rfl⟩ := List.mem_map.mp inTable
    obtain ⟨c, inListed, rfl⟩ := List.mem_map.mp inActions
    have read := Listing.exact_columns?.mpr ⟨rfl, words listed given c inListed⟩
    cases missing.symm.trans read

omit [IsStrictOrderedRing K] in
theorem columns_expected (c : Listing K) :
    Scalar.sum (List.zipWith (· * ·) c.columns.probability c.columns.reward) = .finite c.expected := by
  have products : List.zipWith (· * ·) c.columns.probability c.columns.reward
      = (List.zipWith (fun p r => p.number * r.number) c.probability c.reward).map .finite := by
    rw [Listing.columns, List.zipWith_map, List.map_zipWith]
    rfl
  rw [products, Extended.sum_finite]
  rfl

end FlatModel

end Exact

section Written

namespace Quantity

theorem literal_cells (q : Quantity Float) : q.literal.cellInt? = q.word? ∧ q.literal.cellReal? = q.value? := by
  cases q <;> exact ⟨rfl, rfl⟩

theorem literal_scalar (q : Quantity Float) : q.literal.tensor? = some (.scalar q.literal) := by
  cases q <;> simp [literal, Literal.tensor?]

theorem literal_items (qs : List (Quantity Float)) :
    Literal.tensorItems? (qs.map literal) = some ((qs.map literal).map Tensor.scalar) := by
  induction qs with
  | nil => rw [List.map_nil, Literal.tensorItems?, List.map_nil]
  | cons q rest ih => rw [List.map_cons, Literal.tensorItems?, literal_scalar, ih, List.map_cons]

theorem scalars_cells (ls : List Literal) :
    (ls.map Tensor.scalar).foldl (fun (cells : Array Literal) u => cells ++ u.cells) #[] = ls.toArray := by
  have appended := foldl_append ((ls.map Tensor.scalar).map Tensor.cells) #[]
  rw [List.foldl_map] at appended
  rw [appended]
  simp [Function.comp_def, Tensor.scalar, ← List.flatMap_def]

theorem literal_tensor? (qs : List (Quantity Float)) :
    (Literal.list (qs.map literal)).tensor? = some (.ofVector (qs.map literal).toArray) := by
  rw [Literal.tensor?, literal_items]
  cases qs with
  | nil => rfl
  | cons q rest =>
    have scalars : ((rest.map literal).map Tensor.scalar).all
        (fun u => u.shape == (Tensor.scalar q.literal).shape) = true := by
      simp [Tensor.scalar]
    have cells := scalars_cells (literal q :: rest.map literal)
    rw [List.map_cons] at cells ⊢
    rw [List.map_cons]
    dsimp only
    rw [if_pos scalars, cells]
    simp [Tensor.ofVector, Tensor.scalar]

theorem literal_mapM? {β : Type} {f : Literal → Option β} {g : Quantity Float → Option β}
    (same : ∀ q : Quantity Float, f q.literal = g q) (qs : List (Quantity Float)) :
    (Literal.list (qs.map literal)).tensor?.bind (·.mapM? f) = (qs.mapM g).map fun xs => .ofVector xs.toArray := by
  have cells : (qs.map literal).toArray.mapM f = (qs.mapM g).map List.toArray := by
    have pointwise : f ∘ literal = g := funext same
    rw [List.mapM_toArray, List.mapM_map, pointwise]
    rfl
  rw [literal_tensor?, Option.bind_some, Tensor.mapM?]
  change ((qs.map literal).toArray.mapM f).map (fun xs => Tensor.mk [(qs.map literal).toArray.size] xs) = _
  rw [cells]
  cases read : qs.mapM g with
  | none => rfl
  | some xs =>
    have length := (Outcome.mapM_eq_some.mp read).length_eq
    simp [Tensor.ofVector, length]

end Quantity

namespace Listing

def literal (c : Listing Float) : Literal :=
  .list [.list (c.next.map Quantity.literal), .list (c.probability.map Quantity.literal),
    .list (c.reward.map Quantity.literal)]

theorem literal_read (c : Listing Float) : ActionArrays.read c.literal = c.arrays := by
  rw [literal, ActionArrays.read, Literal.ints?, Literal.reals?, Literal.reals?,
    Quantity.literal_mapM? fun q => q.literal_cells.1, Quantity.literal_mapM? fun q => q.literal_cells.2,
    Quantity.literal_mapM? fun q => q.literal_cells.2, arrays, columns?]
  cases c.next.mapM Quantity.word? with
  | none => rfl
  | some next => cases c.probability.mapM Quantity.value? with
    | none => rfl
    | some probability => cases c.reward.mapM Quantity.value? <;> rfl

end Listing

theorem FlatModel.read_listings (tolerance : Float) (table : List (List (Listing Float))) :
    read (.list (table.map fun actions => .list (actions.map Listing.literal))) tolerance
      = ofListings tolerance table := by
  have row (actions : List (Listing Float)) :
      (do
        let actions ← Outcome.ofOption (Literal.list (actions.map Listing.literal)).parts?
        return actions.map ActionArrays.read : Outcome Float (List (Outcome Float (ActionArrays Float))))
      = .ok (actions.map Listing.arrays) := by
    change Except.ok ((actions.map Listing.literal).map ActionArrays.read) = _
    rw [List.map_map]
    exact congrArg Except.ok (List.map_congr_left fun c _ => c.literal_read)
  refine congrArg (build tolerance) ?_
  rw [List.map_map]
  exact List.map_congr_left fun actions _ => row actions

-- A table of finite numbers is accepted exactly if it lists, for each state, at least one action, and each
-- action is a distribution over states of the table; next states lose their fraction. What is reported
-- otherwise is the first fault, one of structure unless a number has no place in its array. A model that
-- was accepted decodes to the columns that were listed and, under the usual tolerance, is its own copy.
theorem listings_decode :
    (∀ {α : Type} [Scalar α] (tolerance : α) (table : List (List (Listing α))),
      (∀ e, FlatModel.ofListings tolerance table = .error e ↔ FlatModel.Refuses tolerance table e) ∧
      (∀ e, FlatModel.Refuses tolerance table e →
        e.kind = .structural ∨ e = .invalidInput ∧ ∃ actions ∈ table, ∃ c ∈ actions, c.columns? = none) ∧
      (∀ f, FlatModel.ofListings tolerance table = .ok f ↔
        ∃ rows, FlatModel.Takes tolerance table rows ∧ f = FlatModel.laid rows) ∧
      (∀ rows, FlatModel.Takes tolerance table rows → (FlatModel.laid rows).Decodes rows) ∧
      ∀ f, FlatModel.ofListings FlatModel.defaultTolerance table = .ok f → (Model.flat f).flatten false = .ok f) ∧
    (∀ {K : Type} [Field K] [LinearOrder K] [IsStrictOrderedRing K] [FloorRing K] (tolerance : K)
      (table : List (List (Listing K))),
      ((∃ f, FlatModel.ofListings (.finite tolerance) (table.map (List.map Listing.exact)) = .ok f) ↔
        table ≠ [] ∧ ∀ actions ∈ table, actions ≠ [] ∧ ∀ c ∈ actions, c.Distributes table.length tolerance) ∧
      (∀ e, FlatModel.ofListings (.finite tolerance) (table.map (List.map Listing.exact)) = .error e →
        (∀ actions ∈ table, ∀ c ∈ actions, ∀ i ∈ c.next, Literal.inWord i.integer = true) → e.kind = .structural) ∧
      ∀ f, FlatModel.ofListings (.finite tolerance) (table.map (List.map Listing.exact)) = .ok f →
        f.Decodes (table.map (List.map Listing.columns)) ∧
        ∀ (s : Nat) (inside : s < table.length) (a : Nat) (within : a < table[s].length),
          ∃ base, f.stateOffsets[s]? = some base ∧
            f.expectedReward[base + a]? = some (.finite table[s][a].expected)) ∧
    ∀ (tolerance : Float) (table : List (List (Listing Float))),
      FlatModel.read (.list (table.map fun actions => .list (actions.map Listing.literal))) tolerance
        = FlatModel.ofListings tolerance table := by
  refine ⟨fun {α} _ tolerance table => ⟨fun e => FlatModel.ofListings_error, fun e refuses => refuses.kind,
    fun f => FlatModel.ofListings_ok, fun rows takes => FlatModel.laid_decodes takes.fits, fun f made => ?_⟩,
    fun {K} _ _ _ _ tolerance table => ⟨?_, fun e failed words => FlatModel.structural_exact words failed,
      fun f made => ?_⟩, FlatModel.read_listings⟩
  · obtain ⟨rows, takes, rfl⟩ := FlatModel.ofListings_ok.mp made
    exact takes.flatten
  · simp only [FlatModel.ofListings_exact, exists_and_left, exists_eq, and_true]
  · obtain ⟨rows, takes, rfl⟩ := FlatModel.ofListings_ok.mp made
    obtain ⟨_, rfl⟩ := FlatModel.takes_exact.mp takes
    have decodes := FlatModel.laid_decodes takes.fits
    refine ⟨decodes, fun s inside a within => ?_⟩
    obtain ⟨base, found, expected⟩ := decodes.expected s (by simpa using inside) a (by simpa using within)
    simp only [List.getElem_map, FlatModel.columns_expected] at expected
    exact ⟨base, found, expected⟩

end Written

def Listing.ragged : List (List (Listing ℚ)) :=
  [[⟨[.whole 1, .whole 0, .whole 1], [.real (1 / 2), .real (1 / 4), .real (1 / 4)],
      [.whole 1, .whole 2, .real (1 / 2)]⟩,
    ⟨[.whole 0], [.whole 1], [.whole 3]⟩],
   [⟨[.whole 0, .real (3 / 2)], [.real (1 / 2), .real (1 / 2)], [.whole 0, .whole 0]⟩]]

def Listing.leaking : List (List (Listing ℚ)) := [[⟨[.whole 0], [.real (1 / 2)], [.whole 1]⟩]]

theorem Listing.ragged_distributes : ragged ≠ [] ∧
    ∀ actions ∈ ragged, actions ≠ [] ∧ ∀ c ∈ actions, c.Distributes ragged.length (1 / 10 ^ 6) := by
  simp only [ragged, List.forall_mem_cons, ne_eq, reduceCtorEq, not_false_eq_true, true_and]
  refine ⟨⟨⟨?_, ?_, ?_, ?_, ?_⟩, ⟨?_, ?_, ?_, ?_, ?_⟩, ?_⟩, ⟨⟨?_, ?_, ?_, ?_, ?_⟩, ?_⟩, ?_⟩ <;>
    simp [Quantity.number] <;> norm_num [abs_le]

theorem listings_decode_ragged :
    (∃ f, FlatModel.ofListings FlatModel.defaultTolerance (Listing.ragged.map (List.map Listing.exact)) = .ok f ∧
      (Model.flat f).flatten false = .ok f ∧ f.Decodes (Listing.ragged.map (List.map Listing.columns)) ∧
      f.expectedReward[1]? = some (.finite 3)) ∧
    ∃ e, FlatModel.ofListings (.finite 0) (Listing.leaking.map (List.map Listing.exact)) = .error e ∧
      FlatModel.Refuses (.finite 0) (Listing.leaking.map (List.map Listing.exact)) e ∧ e.kind = .structural := by
  constructor
  · obtain ⟨accepted, _, decodes⟩ := listings_decode.2.1 (1 / 10 ^ 6) Listing.ragged
    obtain ⟨f, made⟩ := accepted.mpr Listing.ragged_distributes
    obtain ⟨decoded, expected⟩ := decodes f made
    obtain ⟨base, found, reward⟩ := expected 0 (by decide) 1 (by decide)
    rw [← defaultTolerance_exact] at made
    obtain ⟨_, _, _, _, copied⟩ :=
      listings_decode.1 FlatModel.defaultTolerance (Listing.ragged.map (List.map Listing.exact))
    refine ⟨f, made, copied f made, decoded, ?_⟩
    cases decoded.stateStart.symm.trans found
    refine reward.trans (congrArg (fun x => some (Extended.finite x)) ?_)
    norm_num [Listing.expected, Listing.ragged, Quantity.number]
  · have refused : (FlatModel.ofListings (.finite 0) (Listing.leaking.map (List.map Listing.exact))).isOk = false := by
      decide +kernel
    cases failed : FlatModel.ofListings (.finite 0) (Listing.leaking.map (List.map Listing.exact)) with
    | ok f =>
      rw [failed] at refused
      cases refused
    | error e =>
      refine ⟨e, rfl, ((listings_decode.1 _ _).1 e).mp failed, (listings_decode.2.1 0 Listing.leaking).2.1 e failed ?_⟩
      simp [Listing.leaking, Quantity.integer, Literal.inWord, Literal.leastWord]

def Listing.halfway : Listing ℚ := ⟨[.real (-1 / 2)], [.whole 1], [.whole 0]⟩

def Listing.distant : Listing ℚ := ⟨[.whole (10 ^ 30)], [.whole 1], [.whole 0]⟩

-- A state that is left for one halfway before the first is accepted with its action, and returns.
-- What is beyond all words is refused, though not for its place.
theorem converted_before_checked : (∀ i ∈ Listing.halfway.next, ¬0 ≤ i.number) ∧
    (∃ f, FlatModel.ofListings FlatModel.defaultTolerance [[Listing.halfway.exact]] = .ok f ∧
      f.columns 0 0 = .ok ⟨[0], [.finite 1], [.finite 0]⟩) ∧
    FlatModel.ofListings FlatModel.defaultTolerance [[Listing.distant.exact]] = .error .invalidInput := by
  refine ⟨by norm_num [Listing.halfway, Quantity.number], ?_, rfl⟩
  have kept : (match FlatModel.ofListings FlatModel.defaultTolerance [[Listing.halfway.exact]] with
    | .ok f => match f.columns 0 0 with
      | .ok c => decide (c.next = [0] ∧ c.probability = [.finite 1] ∧ c.reward = [.finite 0])
      | .error _ => false
    | .error _ => false) = true := by decide +kernel
  cases made : FlatModel.ofListings FlatModel.defaultTolerance [[Listing.halfway.exact]] with
  | error e => rw [made] at kept; cases kept
  | ok f =>
    rw [made] at kept
    refine ⟨f, rfl, ?_⟩
    dsimp only at kept
    split at kept
    · rename_i c read
      obtain ⟨next, probability, reward⟩ := of_decide_eq_true kept
      rw [read, ← next, ← probability, ← reward]
    · cases kept

end MarkovDecision
