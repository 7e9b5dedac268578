import MarkovDecision.Proofs.Execution

namespace MarkovDecision

variable {α : Type}

theorem offsets_append (lengths : List Nat) (m : Nat) :
    offsets (lengths ++ [m]) = (offsets lengths).push ((offsets lengths).back?.getD 0 + m) := by
  unfold offsets
  rw [List.foldl_append]
  rfl

@[simp] theorem offsets_size (lengths : List Nat) : (offsets lengths).size = lengths.length + 1 := by
  induction lengths using List.reverseRecOn with
  | nil => rfl
  | append_singleton rest m ih => rw [offsets_append, Array.size_push, ih, List.length_append]; rfl

theorem offsets_back (lengths : List Nat) : (offsets lengths).back? = some lengths.sum := by
  induction lengths using List.reverseRecOn with
  | nil => rfl
  | append_singleton rest m ih => simp [offsets_append, ih]

theorem offsets_getElem? (lengths : List Nat) {k : Nat} (inside : k ≤ lengths.length) :
    (offsets lengths)[k]? = some (lengths.take k).sum := by
  induction lengths using List.reverseRecOn with
  | nil =>
    have first : k = 0 := Nat.le_zero.mp inside
    rw [first]
    rfl
  | append_singleton rest m ih =>
    rw [List.length_append, List.length_singleton] at inside
    rw [offsets_append, Array.getElem?_push, offsets_size]
    by_cases last : k = rest.length + 1
    · subst last
      rw [if_pos rfl, offsets_back, List.take_of_length_le (by simp)]
      simp
    · rw [if_neg last, ih (by omega), List.take_append_of_le_length (by omega)]

theorem offsets_getD (lengths : List Nat) {k : Nat} (inside : k ≤ lengths.length) :
    (offsets lengths).getD k 0 = (lengths.take k).sum := by
  rw [Array.getD_eq_getD_getElem?, offsets_getElem? _ inside, Option.getD_some]

theorem offsets_getD_le (lengths : List Nat) (k : Nat) : (offsets lengths).getD k 0 ≤ lengths.sum := by
  rw [Array.getD_eq_getD_getElem?]
  by_cases inside : k ≤ lengths.length
  · rw [offsets_getElem? lengths inside, Option.getD_some]
    exact (List.take_sublist k lengths).sum_le_sum (fun _ _ => Nat.zero_le _)
  · rw [Array.getElem?_eq_none (by rw [offsets_size]; omega), Option.getD_none]
    exact Nat.zero_le _

theorem offsets_mem_le {lengths : List Nat} {x : Nat} (member : x ∈ (offsets lengths).toList) : x ≤ lengths.sum := by
  obtain ⟨k, found⟩ := Array.mem_iff_getElem?.mp (Array.mem_toList_iff.mp member)
  have bound := offsets_getD_le lengths k
  rwa [Array.getD_eq_getD_getElem?, found, Option.getD_some] at bound

theorem offsets_sorted {lengths : List Nat} (positive : ∀ m ∈ lengths, 0 < m) :
    (offsets lengths).toList.Pairwise (· < ·) := by
  induction lengths using List.reverseRecOn with
  | nil => exact List.pairwise_singleton _ _
  | append_singleton rest m ih =>
    have before : ∀ k ∈ rest, 0 < k := fun k member => positive k (List.mem_append_left _ member)
    have last : 0 < m := positive m (List.mem_append_right _ List.mem_cons_self)
    rw [offsets_append, offsets_back, Option.getD_some, Array.toList_push]
    refine List.pairwise_append.mpr ⟨ih before, List.pairwise_singleton _ _, fun x member y same => ?_⟩
    rw [List.mem_singleton.mp same]
    exact (offsets_mem_le member).trans_lt (Nat.lt_add_of_pos_right last)

theorem extract_flatten {β : Type} (pieces : List (List β)) {k : Nat} (inside : k < pieces.length) :
    pieces.flatten.toArray.extract ((offsets (pieces.map List.length)).getD k 0)
      ((offsets (pieces.map List.length)).getD (k + 1) 0) = pieces[k].toArray := by
  rw [offsets_getD _ (by simpa using inside.le), offsets_getD _ (by simpa using inside), List.extract_toArray,
    List.extract_eq_drop_take', List.drop_take_succ_flatten_eq_getElem]

theorem flatten_place {β : Type} (pieces : List (List β)) {k a : Nat} (inside : k < pieces.length)
    (within : a < pieces[k].length) :
    pieces.flatten[(offsets (pieces.map List.length)).getD k 0 + a]? = some pieces[k][a] := by
  have cell := congrArg (fun xs => xs[a]?) (extract_flatten pieces inside)
  simp only [Array.getElem?_extract, List.getElem?_toArray, List.getElem?_eq_getElem within] at cell
  split at cell
  · exact cell
  · cases cell

theorem foldl_append {β : Type} (parts : List (Array β)) (start : Array β) :
    parts.foldl (· ++ ·) start = start ++ (parts.map Array.toList).flatten.toArray := by
  induction parts generalizing start with
  | nil => simp
  | cons part rest ih =>
    rw [List.foldl_cons, ih, Array.append_assoc, List.map_cons, List.flatten_cons,
      ← List.append_toArray, Array.toArray_toList]

structure ActionArrays.WellShaped (c : ActionArrays α) : Prop where
  next : c.next.cells.size = Tensor.volume c.next.shape
  probability : c.probability.cells.size = Tensor.volume c.probability.shape
  reward : c.reward.cells.size = Tensor.volume c.reward.shape

theorem ActionArrays.ofColumns_shaped (c : Columns α) : (ActionArrays.ofColumns c).WellShaped := by
  refine ⟨?_, ?_, ?_⟩ <;> simp [ofColumns, Tensor.ofVector, Tensor.volume]

theorem ActionArrays.length_ok {c : ActionArrays α} {s a k : Nat} : c.length s a = .ok k ↔
    c.next.length? = some k ∧ c.probability.length? = some k ∧ c.reward.length? = some k := by
  unfold length
  simp only [Outcome.bind_ok, Outcome.ofOption_ok, Outcome.unless_ok, bne_eq_false_iff_eq, Outcome.pure_eq,
    Except.ok.injEq]
  constructor
  · rintro ⟨_, next, _, probability, rfl, _, reward, rfl, rfl⟩
    exact ⟨next, probability, reward⟩
  · rintro ⟨next, probability, reward⟩
    exact ⟨k, next, k, probability, rfl, k, reward, rfl, rfl⟩

structure ActionArrays.Admissible [Scalar α] (c : ActionArrays α) (states : Nat) (tolerance : α) : Prop where
  lengths : ∃ k, c.next.length? = some k ∧ c.probability.length? = some k ∧ c.reward.length? = some k ∧ k ≠ 0
  inside : ∀ i ∈ c.next.cells, 0 ≤ i ∧ i < states
  positive : ∀ p ∈ c.probability.cells, Scalar.le p Scalar.zero = false
  bounded : ∀ p ∈ c.probability.cells, Scalar.lt (Scalar.one + tolerance) p = false
  total : Scalar.lt tolerance (Scalar.abs (Scalar.arraySum c.probability.cells.toList - Scalar.one)) = false

theorem ActionArrays.check_ok [Scalar α] {c : ActionArrays α} {states s a : Nat} {tolerance : α} :
    c.check states tolerance s a = .ok () ↔ c.Admissible states tolerance := by
  unfold check
  simp only [Outcome.bind_ok, length_ok, Outcome.unless_ok, Bool.or_eq_false_iff, Array.any_eq_false']
  constructor
  · rintro ⟨k, ⟨next, probability, reward⟩, some, inside, ⟨positive, bounded⟩, total⟩
    refine ⟨⟨k, next, probability, reward, by simpa using some⟩, fun i member => ?_, ?_, ?_, ?_⟩
    · simpa using inside i member
    · simpa using positive
    · simpa using bounded
    · by_contra above
      rw [if_pos (by simpa using above)] at total
      cases total
  · rintro ⟨⟨k, next, probability, reward, some⟩, inside, positive, bounded, total⟩
    refine ⟨k, ⟨next, probability, reward⟩, by simpa using some, fun i member => ?_, ⟨?_, ?_⟩, ?_⟩
    · simpa using inside i member
    · simpa using positive
    · simpa using bounded
    · rw [total]
      rfl

theorem Tensor.volume_vector {β : Type} {t : Tensor β} {k : Nat} (vector : t.isVector = true)
    (length : t.length? = some k) : volume t.shape = k := by
  obtain ⟨shape, cells⟩ := t
  simp only [Tensor.isVector, Tensor.length?, beq_iff_eq] at vector length
  match shape, vector, length with
  | [m], _, length =>
    cases length
    simp [volume]

namespace FlatModel

structure Covers (m : FlatModel α) : Prop where
  probability : m.probability.size = m.next.size
  reward : m.reward.size = m.next.size
  pairs : ∀ k, m.pairOffsets.getD k 0 ≤ m.next.size

section Layout

def Even (states : List (List (ActionArrays α))) : Prop := ∀ actions ∈ states, ∀ c ∈ actions,
  c.probability.cells.size = c.next.cells.size ∧ c.reward.cells.size = c.next.cells.size

variable {states : List (List (ActionArrays α))}

theorem Even.lengths (even : Even states) :
    (states.flatten.map fun c => c.probability.cells.toList).map List.length
        = states.flatten.map (fun c => c.next.cells.size) ∧
      (states.flatten.map fun c => c.reward.cells.toList).map List.length
        = states.flatten.map fun c => c.next.cells.size := by
  have sizes : ∀ c ∈ states.flatten,
      c.probability.cells.size = c.next.cells.size ∧ c.reward.cells.size = c.next.cells.size := by
    intro c member
    obtain ⟨actions, inStates, inActions⟩ := List.mem_flatten.mp member
    exact even actions inStates c inActions
  rw [List.map_map, List.map_map]
  exact ⟨List.map_congr_left fun c member => (sizes c member).1,
    List.map_congr_left fun c member => (sizes c member).2⟩

theorem layout_covers (even : Even states) : (layout states).Covers := by
  have size {β : Type} (f : ActionArrays α → Array β) :
      ((states.flatten.map f).foldl (· ++ ·) #[]).size
        = ((states.flatten.map fun c => (f c).toList).map List.length).sum := by
    rw [foldl_append, List.map_map, Array.size_append, Array.size_empty, zero_add, List.size_toArray,
      List.length_flatten]
    rfl
  have next : (layout states).next.size = (states.flatten.map fun c => c.next.cells.size).sum := by
    rw [layout, size, List.map_map]
    rfl
  refine ⟨?_, ?_, fun k => ?_⟩
  · rw [next, layout, size, even.lengths.1]
  · rw [next, layout, size, even.lengths.2]
  · rw [next]
    exact offsets_getD_le _ k

theorem layout_actionCount {s : Nat} (inside : s < states.length) :
    (layout states).actionCount (s : Nat) = .ok (states[s].length : Int) := by
  have lower : entry (α := α) (layout states).stateOffsets (s : Nat)
      = .ok ((states.map List.length).take s).sum :=
    entry_ok.mpr (offsets_getElem? _ (by simpa using inside.le))
  have upper : entry (α := α) (layout states).stateOffsets ((s : Nat) + 1)
      = .ok ((states.map List.length).take (s + 1)).sum :=
    (entry_ok (i := s + 1)).mpr (offsets_getElem? _ (by simpa using inside))
  rw [actionCount, upper, Outcome.ok_bind, lower, Outcome.ok_bind, List.take_add_one, List.sum_append]
  simp [inside]

theorem layout_columns (even : Even states) {s a : Nat} (inside : s < states.length)
    (within : a < states[s].length) : (layout states).columns (s : Nat) (a : Nat)
      = .ok ⟨states[s][a].next.cells.toList, states[s][a].probability.cells.toList,
        states[s][a].reward.cells.toList⟩ := by
  have lower : entry (α := α) (layout states).stateOffsets (s : Nat)
      = .ok ((offsets (states.map List.length)).getD s 0) := by
    rw [offsets_getD _ (by simpa using inside.le)]
    exact entry_ok.mpr (offsets_getElem? _ (by simpa using inside.le))
  obtain ⟨k, place⟩ : ∃ k, (offsets (states.map List.length)).getD s 0 + a = k := ⟨_, rfl⟩
  have pair := flatten_place states inside within
  rw [place] at pair
  obtain ⟨valid, pair⟩ := List.getElem?_eq_some_iff.mp pair
  let lengths := states.flatten.map fun c => c.next.cells.size
  have covered : k < lengths.length := by rwa [List.length_map]
  have bound {j : Nat} (upTo : j ≤ lengths.length) :
      entry (α := α) (layout states).pairOffsets (j : Nat) = .ok ((offsets lengths).getD j 0) := by
    rw [offsets_getD _ upTo]
    exact entry_ok.mpr (offsets_getElem? _ upTo)
  have column {β : Type} (f : ActionArrays α → Array β)
      (same : (states.flatten.map fun c => (f c).toList).map List.length = lengths) :
      (((states.flatten.map f).foldl (· ++ ·) #[]).extract ((offsets lengths).getD k 0)
        ((offsets lengths).getD (k + 1) 0)).toList = (f states[s][a]).toList := by
    have piece := extract_flatten (states.flatten.map fun c => (f c).toList) (k := k)
      (by rwa [List.length_map])
    rw [same] at piece
    rw [foldl_append, Array.empty_append, List.map_map]
    refine (congrArg Array.toList piece).trans ?_
    rw [List.getElem_map, pair]
  have next : (states.flatten.map fun c => c.next.cells.toList).map List.length = lengths := by
    rw [List.map_map]
    rfl
  have first := bound covered.le
  have last := bound (j := k + 1) covered
  rw [← place] at first last
  push_cast at first last
  rw [columns, layout_actionCount inside, Outcome.ok_bind]
  dsimp only
  rw [if_neg (by simp; omega)]
  simp only [Outcome.pure_eq, Outcome.ok_bind, lower, first, last, place]
  exact congrArg Except.ok (congr (congrArg₂ Columns.mk (column _ next) (column _ even.lengths.1))
    (column _ even.lengths.2))

theorem layout_transitions (even : Even states) {s a : Nat} (inside : s < states.length)
    (within : a < states[s].length) {c : Columns α} (laid : states[s][a] = .ofColumns c) :
    (layout states).transitions (s : Nat) (a : Nat)
      = .ok ((c.next.zip (c.probability.zip c.reward)).map fun (n, p, r) => ⟨.index n, .real p, .real r⟩) := by
  rw [transitions, layout_columns even inside within, laid]
  rfl

end Layout

end FlatModel

def Columns.transitions (c : Columns α) : List (Transition α) :=
  (c.next.zip (c.probability.zip c.reward)).map fun (n, p, r) => ⟨.index n, .real p, .real r⟩

namespace FlatModel

structure Lists (f : FlatModel α) (rows : List (List (Columns α))) : Prop where
  states : f.stateCount = rows.length
  covers : f.Covers
  actions : ∀ (s : Nat) (inside : s < rows.length), f.actionCount (s : Nat) = .ok (rows[s].length : Int)
  outcomes : ∀ (s : Nat) (inside : s < rows.length) (a : Nat) (within : a < rows[s].length),
    f.transitions (s : Nat) (a : Nat) = .ok rows[s][a].transitions

theorem columns_elsewhere {f : FlatModel α} {s k : Nat} {a : Int} (count : f.actionCount (s : Nat) = .ok (k : Int))
    (outside : ¬(0 ≤ a ∧ a < k)) : f.columns (s : Nat) a = .error (.actionIndex a (s : Nat)) := by
  have refused : (decide (a < 0) || decide ((k : Int) ≤ a)) = true := by
    simp only [Bool.or_eq_true, decide_eq_true_eq]
    omega
  rw [FlatModel.columns, count, Outcome.ok_bind]
  dsimp only
  rw [if_pos refused]
  rfl

section Build

variable [Scalar α]

theorem readActions_checked {states s a : Nat} {tolerance : α}
    {given : List (Outcome α (ActionArrays α))} {actions : List (ActionArrays α)}
    (read : readActions states tolerance s a given = .ok actions) :
    List.Forall₂ (fun g c => g = .ok c ∧ ∃ i, c.check states tolerance s i = .ok ()) given actions := by
  induction given generalizing a actions with
  | nil =>
    cases read
    exact .nil
  | cons first rest ih =>
    unfold readActions at read
    obtain ⟨c, known, read⟩ := Outcome.bind_ok.mp read
    obtain ⟨_, accepted, read⟩ := Outcome.bind_ok.mp read
    obtain ⟨later, readLater, same⟩ := Outcome.bind_ok.mp read
    cases same
    exact .cons ⟨known, a, accepted⟩ (ih readLater)

def Accepted (states : Nat) (tolerance : α) (given : Outcome α (List (Outcome α (ActionArrays α))))
    (actions : List (ActionArrays α)) : Prop :=
  ∃ row s, given = .ok row ∧ row ≠ [] ∧
    List.Forall₂ (fun g c => g = .ok c ∧ ∃ i, c.check states tolerance s i = .ok ()) row actions

theorem readStates_checked {states s : Nat} {tolerance : α}
    {given : List (Outcome α (List (Outcome α (ActionArrays α))))} {rows : List (List (ActionArrays α))}
    (read : readStates states tolerance s given = .ok rows) :
    List.Forall₂ (Accepted states tolerance) given rows := by
  induction given generalizing s rows with
  | nil =>
    cases read
    exact .nil
  | cons first rest ih =>
    unfold readStates at read
    obtain ⟨row, known, read⟩ := Outcome.bind_ok.mp read
    dsimp only at read
    obtain ⟨some, read⟩ := Outcome.unless_ok.mp read
    obtain ⟨head, readHead, read⟩ := Outcome.bind_ok.mp read
    obtain ⟨later, readLater, same⟩ := Outcome.bind_ok.mp read
    cases same
    exact .cons ⟨row, s, known, by simpa using some, readActions_checked readHead⟩ (ih readLater)

-- Whatever was built is the layout of arrays that were read and checked.
theorem build_layout {tolerance : α} {given : List (Outcome α (List (Outcome α (ActionArrays α))))}
    {m : FlatModel α} (shaped : ∀ row, .ok row ∈ given → ∀ c, .ok c ∈ row → c.WellShaped)
    (built : build tolerance given = .ok m) :
    ∃ rows, m = layout rows ∧ given ≠ [] ∧ Even rows ∧
      List.Forall₂ (Accepted given.length tolerance) given rows := by
  unfold build at built
  dsimp only at built
  obtain ⟨some, built⟩ := Outcome.unless_ok.mp built
  obtain ⟨rows, read, built⟩ := Outcome.bind_ok.mp built
  split at built
  · rename_i vectors
    cases built
    have checked := readStates_checked read
    refine ⟨rows, rfl, by simpa using some, fun actions member c inActions => ?_, checked⟩
    obtain ⟨_, inGiven, row, s, rfl, _, each⟩ := exists_left_of_forall₂ checked actions member
    obtain ⟨_, inRow, rfl, i, accepted⟩ := exists_left_of_forall₂ each c inActions
    have vector := List.all_eq_true.mp (List.all_eq_true.mp vectors actions member) c inActions
    simp only [ActionArrays.areVectors, Bool.and_eq_true] at vector
    obtain ⟨k, next, probability, reward, _⟩ := (ActionArrays.check_ok.mp accepted).lengths
    have shape := shaped row inGiven c inRow
    rw [shape.next, shape.probability, shape.reward, Tensor.volume_vector vector.1.1 next,
      Tensor.volume_vector vector.1.2 probability, Tensor.volume_vector vector.2 reward]
    exact ⟨rfl, rfl⟩
  · cases built

theorem readActions_ok {states s : Nat} {tolerance : α} {actions : List (ActionArrays α)}
    (each : ∀ c ∈ actions, c.Admissible states tolerance) (a : Nat) :
    readActions states tolerance s a (actions.map .ok) = .ok actions := by
  induction actions generalizing a with
  | nil => rfl
  | cons c rest ih =>
    obtain ⟨here, later⟩ := List.forall_mem_cons.mp each
    rw [List.map_cons, readActions, Outcome.ok_bind, ActionArrays.check_ok.mpr here, Outcome.ok_bind, ih later]
    rfl

theorem readStates_ok {states : Nat} {tolerance : α} {rows : List (List (ActionArrays α))}
    (each : ∀ actions ∈ rows, actions ≠ [] ∧ ∀ c ∈ actions, c.Admissible states tolerance) (s : Nat) :
    readStates states tolerance s (rows.map fun actions => .ok (actions.map .ok)) = .ok rows := by
  induction rows generalizing s with
  | nil => rfl
  | cons actions rest ih =>
    obtain ⟨⟨some, here⟩, later⟩ := List.forall_mem_cons.mp each
    rw [List.map_cons, readStates, Outcome.ok_bind, if_neg (by simpa using some), readActions_ok here,
      Outcome.ok_bind, ih later]
    rfl

def laid (rows : List (List (Columns α))) : FlatModel α := layout (rows.map (List.map ActionArrays.ofColumns))

theorem build_laid {tolerance : α} {rows : List (List (Columns α))} (some : rows ≠ [])
    (each : ∀ row ∈ rows, row ≠ [] ∧ ∀ c ∈ row, (ActionArrays.ofColumns c).Admissible rows.length tolerance) :
    build tolerance (rows.map fun row => .ok (row.map fun c => .ok (.ofColumns c))) = .ok (laid rows) := by
  let arrays := rows.map (List.map ActionArrays.ofColumns)
  have read : readStates rows.length tolerance 0 (arrays.map fun actions => .ok (actions.map .ok)) = .ok arrays := by
    refine readStates_ok (fun actions member => ?_) 0
    obtain ⟨row, inRows, rfl⟩ := List.mem_map.mp member
    refine ⟨by simpa using (each row inRows).1, fun c member => ?_⟩
    obtain ⟨c, inRow, rfl⟩ := List.mem_map.mp member
    exact (each row inRows).2 c inRow
  have vectors : arrays.all (fun actions => actions.all ActionArrays.areVectors) = true := by
    simp only [arrays, List.all_map, List.all_eq_true, Function.comp_apply]
    intro _ _ _ _
    rfl
  have given : rows.map (fun row => (Except.ok (row.map fun c => .ok (.ofColumns c)) :
      Outcome α (List (Outcome α (ActionArrays α))))) = arrays.map fun actions => .ok (actions.map .ok) := by
    rw [List.map_map]
    refine List.map_congr_left fun row _ => ?_
    rw [Function.comp_apply, List.map_map]
    rfl
  have length : arrays.length = rows.length := List.length_map _
  rw [given, build, if_neg (by simpa [arrays] using some), List.length_map, length, read, Outcome.ok_bind,
    if_pos vectors]
  rfl

omit [Scalar α] in
theorem laid_stateOffsets (rows : List (List (Columns α))) :
    (laid rows).stateOffsets = offsets (rows.map List.length) := by
  simp [laid, layout, Function.comp_def]

omit [Scalar α] in
theorem laid_pairOffsets (rows : List (List (Columns α))) :
    (laid rows).pairOffsets = offsets (rows.flatten.map fun c => c.next.length) := by
  simp [laid, layout, Function.comp_def, ← List.map_flatten, ActionArrays.ofColumns, Tensor.ofVector]

omit [Scalar α] in
theorem laid_next (rows : List (List (Columns α))) :
    (laid rows).next.size = (rows.flatten.map fun c => c.next.length).sum := by
  simp [laid, layout, foldl_append, Function.comp_def, ← List.map_flatten, ActionArrays.ofColumns, Tensor.ofVector]

theorem laid_even {states : Nat} {tolerance : α} {rows : List (List (Columns α))}
    (each : ∀ row ∈ rows, ∀ c ∈ row, (ActionArrays.ofColumns c).Admissible states tolerance) :
    Even (rows.map (List.map ActionArrays.ofColumns)) := by
  intro actions member c inActions
  obtain ⟨row, inRows, rfl⟩ := List.mem_map.mp member
  obtain ⟨c, inRow, rfl⟩ := List.mem_map.mp inActions
  obtain ⟨k, next, probability, reward, _⟩ := (each row inRows c inRow).lengths
  simp only [ActionArrays.ofColumns, Tensor.ofVector, Tensor.length?, List.head?_cons, Option.some.injEq] at *
  omega

theorem laid_lists {states : Nat} {tolerance : α} {rows : List (List (Columns α))}
    (each : ∀ row ∈ rows, ∀ c ∈ row, (ActionArrays.ofColumns c).Admissible states tolerance) :
    (laid rows).Lists rows := by
  have even := laid_even each
  have length : (rows.map (List.map ActionArrays.ofColumns)).length = rows.length := List.length_map _
  refine ⟨?_, layout_covers even, fun s inside => ?_, fun s inside a within => ?_⟩
  · simp [laid, stateCount, layout]
  · rw [laid, layout_actionCount (by rwa [length])]
    simp
  · rw [laid, layout_transitions even (by rwa [length]) (by simpa using within) (c := rows[s][a]) (by simp)]
    rfl

theorem build_lists {tolerance : α} {rows : List (List (Columns α))} (some : rows ≠ [])
    (each : ∀ row ∈ rows, row ≠ [] ∧ ∀ c ∈ row, (ActionArrays.ofColumns c).Admissible rows.length tolerance) :
    ∃ f, build tolerance (rows.map fun row => .ok (row.map fun c => .ok (.ofColumns c))) = .ok f ∧ f.Lists rows :=
  ⟨laid rows, build_laid some each, laid_lists fun row member => (each row member).2⟩

end Build

end FlatModel

end MarkovDecision
