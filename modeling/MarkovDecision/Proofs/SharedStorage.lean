import MarkovDecision.Proofs.Sweep
import MarkovDecision.Storage.Sweep

namespace MarkovDecision

variable {α : Type} [Scalar α]

def View.Apart (v w : View) : Prop :=
  v.buffer = w.buffer → v.offset + v.size ≤ w.offset ∨ w.offset + w.size ≤ v.offset

theorem View.Apart.symm {v w : View} (apart : v.Apart w) : w.Apart v := fun same => (apart same.symm).symm

def View.Holds (v : View) (n : Nat) : Prop := ∃ k, v.shape = [k] ∧ n ≤ k

theorem View.size_vector {v : View} {k : Nat} (shape : v.shape = [k]) : v.size = k := by
  rw [View.size, shape]
  simp [Tensor.volume]

theorem View.size_matrix {v : View} {N n : Nat} (shape : v.shape = [N, n]) : v.size = N * n := by
  simp [View.size, shape, Tensor.volume]

theorem View.Holds.size {v : View} {n : Nat} (holds : v.Holds n) : n ≤ v.size := by
  obtain ⟨k, shape, room⟩ := holds
  rwa [View.size_vector shape]

namespace Buffer

variable {b : Buffer α} {i j : Nat} {x y : α} {a c : Int}

@[simp] theorem put_isWhole : (b.put i x a).isWhole = b.isWhole := by cases b <;> rfl

theorem put_comm (other : i ≠ j) : (b.put i x a).put j y c = (b.put j y c).put i x a := by
  cases b with
  | reals cells => exact congrArg Buffer.reals (Array.setIfInBounds_comm x y other)
  | wholes cells => exact congrArg Buffer.wholes (Array.setIfInBounds_comm a c other)

theorem put_cell? (other : i ≠ j) : (b.put i x a).cell? j = b.cell? j := by
  cases b <;> simp [put, cell?, other]

end Buffer

namespace Storage

variable {m : Storage α} {v w : View} {k l : Nat} {x y : α} {a c : Int}

theorem putCell_buffer : (m.putCell w l y c).buffer v
    = if w.buffer = v.buffer then (m.buffer v).put (w.offset + l) y c else m.buffer v := by
  have empty : ((.reals #[] : Buffer α)).put (w.offset + l) y c = .reals #[] := rfl
  unfold Storage.buffer putCell
  rw [Array.getD_eq_getD_getElem?, Array.getD_eq_getD_getElem?, Array.getElem?_modify]
  split
  · cases m.buffers[v.buffer]? with
    | none => exact empty.symm
    | some b => rfl
  · rfl

@[simp] theorem putCell_isWhole : (m.putCell w l y c).isWhole v = m.isWhole v := by
  rw [isWhole, isWhole, putCell_buffer]
  split
  · exact Buffer.put_isWhole
  · rfl

theorem putCell_comm (other : v.buffer = w.buffer → v.offset + k ≠ w.offset + l) :
    (m.putCell v k x a).putCell w l y c = (m.putCell w l y c).putCell v k x a := by
  refine congrArg Storage.mk (Array.ext_getElem? fun i => ?_)
  simp only [putCell, Array.getElem?_modify]
  by_cases first : v.buffer = i <;> by_cases second : w.buffer = i <;> simp only [first, second, if_true, if_false]
  cases m.buffers[i]? with
  | none => rfl
  | some b => exact congrArg some (Buffer.put_comm (other (first.trans second.symm)))

theorem putCell_comm_cells (other : k ≠ l) :
    (m.putCell v k x a).putCell v l y c = (m.putCell v l y c).putCell v k x a :=
  putCell_comm fun _ same => other (Nat.add_left_cancel same)

theorem putCell_comm_apart (apart : v.Apart w) (inside : k < v.size) (inside' : l < w.size) :
    (m.putCell v k x a).putCell w l y c = (m.putCell w l y c).putCell v k x a :=
  putCell_comm fun same => by
    have range := apart same
    omega

theorem putCell_congr (same : (m.buffer w).put (w.offset + l) x a = (m.buffer w).put (w.offset + l) y c) :
    m.putCell w l x a = m.putCell w l y c := by
  refine congrArg Storage.mk (Array.ext_getElem? fun i => ?_)
  rw [Array.getElem?_modify, Array.getElem?_modify]
  split
  · rename_i here
    cases found : m.buffers[i]? with
    | none => rfl
    | some b =>
      rw [Storage.buffer, Array.getD_eq_getD_getElem?, here, found] at same
      exact congrArg some same
  · rfl

theorem putCell_whole (whole : m.isWhole w = true) : m.putCell w l x a = m.putCell w l y a := by
  refine putCell_congr ?_
  rw [isWhole] at whole
  cases found : m.buffer w with
  | reals => rw [found] at whole; cases whole
  | wholes => rfl

theorem putCell_real (real : m.isWhole w = false) : m.putCell w l x a = m.putCell w l x c := by
  refine putCell_congr ?_
  rw [isWhole] at real
  cases found : m.buffer w with
  | reals => rfl
  | wholes => rw [found] at real; cases real

theorem read_putCell (apart : v.Apart w) (inside : l < w.size) : (m.putCell w l y c).read v = m.read v := by
  have cells (k : Nat) (within : k < v.size) :
      ((m.putCell w l y c).buffer v).cell? (v.offset + k) = (m.buffer v).cell? (v.offset + k) := by
    rw [putCell_buffer]
    split
    · rename_i same
      have range := apart same.symm
      exact Buffer.put_cell? (by omega)
    · rfl
  funext i
  unfold read
  split
  · rename_i n shape
    have size : v.size = n := View.size_vector shape
    have place : (indexFrom n i).bind (fun k => ((m.putCell w l y c).buffer v).cell? (v.offset + k))
        = (indexFrom n i).bind fun k => (m.buffer v).cell? (v.offset + k) := by
      cases found : indexFrom n i with
      | none => rfl
      | some k =>
        have within : k < n := by
          unfold indexFrom at found
          split_ifs at found <;> cases found <;> omega
        exact cells k (by omega)
    rw [place]
  · rfl
  · rfl

theorem read_cells {n : Nat} (shape : v.shape = [n]) (inside : (m.reals v).cells.size = n) :
    m.read v = Reader.ofArray (m.reals v).cells := by
  have size : v.size = n := View.size_vector shape
  have cell (k : Nat) (within : k < n) : (m.buffer v).cell? (v.offset + k) = (m.reals v).cells[k]? := by
    rw [reals]
    cases m.buffer v with
    | reals cells =>
      simp [Buffer.cell?, Array.getElem?_extract, size]
      omega
    | wholes cells =>
      simp [Buffer.cell?, Array.getElem?_extract, size]
      omega
  funext i
  rw [Reader.ofArray, entry, inside, read, shape]
  dsimp only
  cases found : indexFrom n i with
  | none => rfl
  | some k =>
    have within : k < n := by
      unfold indexFrom at found
      split_ifs at found <;> cases found <;> omega
    cases stored : (m.reals v).cells[k]? <;> simp only [Option.bind_some, cell k within, stored]

section Shown

theorem extract_setIfInBounds {β : Type} (xs : Array β) {i first last : Nat} (outside : i < first ∨ last ≤ i) (x : β) :
    (xs.setIfInBounds i x).extract first last = xs.extract first last := by
  refine Array.ext_getElem? fun k => ?_
  simp only [Array.getElem?_extract, Array.size_setIfInBounds, Array.getElem?_setIfInBounds]
  split
  · rw [if_neg (by omega)]
  · rfl

theorem extract_setIfInBounds_inside {β : Type} (xs : Array β) (first : Nat) {i count : Nat} (inside : i < count)
    (x : β) : (xs.setIfInBounds (first + i) x).extract first (first + count)
      = (xs.extract first (first + count)).setIfInBounds i x := by
  refine Array.ext_getElem? fun k => ?_
  simp only [Array.getElem?_extract, Array.size_setIfInBounds, Array.getElem?_setIfInBounds, Array.size_extract,
    Nat.add_left_cancel_iff]
  by_cases here : i = k
  · subst here
    rw [if_pos rfl, if_pos rfl]
    by_cases stored : first + i < xs.size
    · rw [if_pos stored, if_pos (by omega)]
    · rw [if_neg stored, if_neg (by omega), if_neg (by omega)]
  · rw [if_neg here, if_neg here]

theorem put_shown (apart : v.Apart w) (inside : l < w.size) (same : w.buffer = v.buffer) :
    w.offset + l < v.offset ∨ v.offset + v.size ≤ w.offset + l := by
  have range := apart same.symm
  omega

theorem reals_putCell_apart (apart : v.Apart w) (inside : l < w.size) : (m.putCell w l y c).reals v = m.reals v := by
  rw [reals, reals, putCell_buffer]
  by_cases same : w.buffer = v.buffer
  · rw [if_pos same]
    have outside := put_shown apart inside same
    cases m.buffer v <;> simp only [Buffer.put, extract_setIfInBounds _ outside]
  · rw [if_neg same]

theorem wholes_putCell_apart (apart : v.Apart w) (inside : l < w.size) :
    (m.putCell w l y c).wholes v = m.wholes v := by
  rw [wholes, wholes, putCell_buffer]
  by_cases same : w.buffer = v.buffer
  · rw [if_pos same]
    have outside := put_shown apart inside same
    cases m.buffer v <;> simp only [Buffer.put, extract_setIfInBounds _ outside]
  · rw [if_neg same]

theorem reals_putCell (real : m.isWhole w = false) (inside : l < w.size) :
    ((m.putCell w l y c).reals w).cells = (m.reals w).cells.setIfInBounds l y := by
  rw [isWhole] at real
  rw [reals, reals, putCell_buffer, if_pos rfl]
  cases found : m.buffer w with
  | wholes => rw [found] at real; cases real
  | reals cells => exact extract_setIfInBounds_inside cells w.offset inside y

theorem wholes_putCell (whole : m.isWhole w = true) (inside : l < w.size) :
    ((m.putCell w l y c).wholes w).cells = (m.wholes w).cells.setIfInBounds l c := by
  rw [isWhole] at whole
  rw [wholes, wholes, putCell_buffer, if_pos rfl]
  cases found : m.buffer w with
  | reals => rw [found] at whole; cases whole
  | wholes cells => exact extract_setIfInBounds_inside cells w.offset inside c

theorem size_putCell : ((m.putCell w l y c).reals v).cells.size = (m.reals v).cells.size := by
  rw [reals, reals, putCell_buffer]
  by_cases same : w.buffer = v.buffer
  · rw [if_pos same]
    cases m.buffer v <;> simp [Buffer.put]
  · rw [if_neg same]

end Shown

section Filled

theorem fill_concat (m : Storage α) (v : View) (xs : List α) (x : α) :
    m.fill v (xs ++ [x]) = (m.fill v xs).store v xs.length x := by
  rw [fill, fill, List.zipIdx_append, List.foldl_append, Nat.zero_add]
  rfl

theorem fill_keeps (keeps : Storage α → Prop)
    (writes : ∀ x k y a, keeps x → k < v.size → keeps (x.putCell v k y a)) (start : keeps m) (xs : List α) :
    keeps (m.fill v xs) := by
  induction xs using List.reverseRecOn with
  | nil => exact start
  | append_singleton xs y ih =>
    rw [fill_concat, store]
    split
    · exact writes _ _ _ _ ih ‹_›
    · exact ih

theorem isWhole_fill (xs : List α) : (m.fill v xs).isWhole w = m.isWhole w :=
  fill_keeps (fun x => x.isWhole w = m.isWhole w) (fun _ _ _ _ same _ => putCell_isWhole.trans same) rfl xs

theorem size_fill (xs : List α) : ((m.fill v xs).reals w).cells.size = (m.reals w).cells.size :=
  fill_keeps (fun x => (x.reals w).cells.size = (m.reals w).cells.size)
    (fun _ _ _ _ same _ => size_putCell.trans same) rfl xs

theorem reals_fill_apart (apart : w.Apart v) (xs : List α) : (m.fill v xs).reals w = m.reals w :=
  fill_keeps (fun x => x.reals w = m.reals w)
    (fun _ _ _ _ same inside => (reals_putCell_apart apart inside).trans same) rfl xs

theorem wholes_fill_apart (apart : w.Apart v) (xs : List α) : (m.fill v xs).wholes w = m.wholes w :=
  fill_keeps (fun x => x.wholes w = m.wholes w)
    (fun _ _ _ _ same inside => (wholes_putCell_apart apart inside).trans same) rfl xs

theorem reals_fill (real : m.isWhole v = false) (room : (m.reals v).cells.size = v.size) (xs : List α) :
    ∀ i < v.size, ((m.fill v xs).reals v).cells[i]? = xs[i]?.or (m.reals v).cells[i]? := by
  induction xs using List.reverseRecOn with
  | nil => exact fun i _ => rfl
  | append_singleton xs x ih =>
    intro i below
    rw [fill_concat, store]
    by_cases inside : xs.length < v.size
    · rw [if_pos inside, reals_putCell ((isWhole_fill xs).trans real) inside, Array.getElem?_setIfInBounds]
      by_cases here : xs.length = i
      · subst here
        rw [if_pos rfl, if_pos (by rw [size_fill, room]; exact inside), List.getElem?_concat_length]
        rfl
      · have same : (xs ++ [x])[i]? = xs[i]? := by
          rcases Nat.lt_or_gt_of_ne here with beyond | ahead
          · rw [List.getElem?_eq_none (by simpa using beyond), List.getElem?_eq_none beyond.le]
          · exact List.getElem?_append_left ahead
        rw [if_neg here, ih i below, same]
    · rw [if_neg inside, ih i below, List.getElem?_append_left (by omega)]

end Filled

section Passes

variable {n : Nat} {values outValues outActions : View} {vector : Array α}

structure Reads (values outValues : View) (vector : Array α) (m : Storage α) : Prop where
  reads : m.read values = Reader.ofArray vector
  real : m.isWhole outValues = false

theorem Reads.putCell (ready : Reads values outValues vector m) (apart : values.Apart w) (inside : l < w.size) :
    Reads values outValues vector (m.putCell w l y c) :=
  ⟨(read_putCell apart inside).trans ready.reads, putCell_isWhole.trans ready.real⟩

theorem checkedMemory_keeps (room : outValues.Holds n) (room' : outActions.Holds n) (apart : values.Apart outValues)
    (apart' : values.Apart outActions) : (checkedMemory values outValues outActions).Keeps n vector
      (Reads values outValues vector) (fun s y x => x.putCell outValues s y 0)
      (fun s a x => x.putCell outActions s (Scalar.ofInt a) a) := by
  obtain ⟨k, shape, wide⟩ := room
  obtain ⟨k', shape', wide'⟩ := room'
  have size := View.size_vector shape
  have size' := View.size_vector shape'
  refine ⟨fun x ready => ready.reads, fun s inside y x ready => ⟨?_, ready.putCell apart (by omega)⟩,
    fun s inside a x ready => ⟨?_, ready.putCell apart' (by omega)⟩⟩
  · change x.write outValues s y = _
    rw [write, shape]
    dsimp only
    rw [if_pos (by omega), ready.real]
    rfl
  · change x.writeWhole outActions s a = _
    rw [writeWhole, write, shape']
    dsimp only
    cases whole : x.isWhole outActions with
    | true =>
      rw [if_pos rfl, View.isVector, shape', size', if_pos (show ([k'].length == 1) = true from rfl),
        if_pos (show s < k' by omega), putCell_whole (y := Scalar.ofInt a) whole]
    | false =>
      rw [if_neg (by simp), if_pos (by omega), if_neg (by simp), putCell_real whole]

theorem rawMemory_keeps {source : Storage α → Reader α}
    (reads : ∀ x, Reads values outValues vector x → source x = Reader.ofArray vector) (room : outValues.Holds n)
    (room' : outActions.Holds n) (apart : values.Apart outValues) (apart' : values.Apart outActions) :
    (rawMemory source outValues outActions).Keeps n vector (Reads values outValues vector)
      (fun s y x => x.putCell outValues s y 0) (fun s a x => x.putCell outActions s (Scalar.ofInt a) a) := by
  have size := room.size
  have size' := room'.size
  refine ⟨reads, fun s inside y x ready => ⟨?_, ready.putCell apart (by omega)⟩,
    fun s inside a x ready => ⟨?_, ready.putCell apart' (by omega)⟩⟩
  · exact congrArg Except.ok ((if_pos (by omega)).trans (putCell_real ready.real))
  · exact congrArg Except.ok (if_pos (by omega))

theorem writes_comm (room : outValues.Holds n) (room' : outActions.Holds n) (apart : outValues.Apart outActions)
    (y : Nat → α) (b c : Nat → Int) (z : Nat → α) {s t : Nat} (inside : s < n) (inside' : t < n) (other : s ≠ t)
    (m : Storage α) :
    (((m.putCell outValues s (y s) (b s)).putCell outActions s (z s) (c s)).putCell outValues t (y t) (b t)).putCell
        outActions t (z t) (c t)
      = (((m.putCell outValues t (y t) (b t)).putCell outActions t (z t) (c t)).putCell outValues s (y s) (b s)).putCell
        outActions s (z s) (c s) := by
  have size := room.size
  have size' := room'.size
  rw [putCell_comm_apart (v := outActions) (k := s) (l := t) apart.symm (by omega) (by omega),
    putCell_comm_cells (v := outValues) (k := s) (l := t) other,
    putCell_comm_cells (v := outActions) (k := s) (l := t) other,
    putCell_comm_apart (v := outValues) (k := s) (l := t) apart (by omega) (by omega)]

end Passes

end Storage

end MarkovDecision
