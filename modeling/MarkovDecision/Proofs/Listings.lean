import MarkovDecision.Proofs.CopiedModel

namespace MarkovDecision

theorem Literal.inWord_iff {i : Int} : inWord i = true ↔ -2 ^ 63 ≤ i ∧ i < 2 ^ 63 := by
  simp only [inWord, Bool.and_eq_true, decide_eq_true_eq]
  rw [leastWord]
  omega

theorem Quantity.word?_inWord {α : Type} [Scalar α] (q : Quantity α) {i : Int} (word : q.word? = some i) :
    Literal.inWord i = true := by
  have kept {n i : Int} (word : (if Literal.inWord n then some n else none) = some i) : Literal.inWord i = true := by
    split at word
    · cases word
      assumption
    · cases word
  cases q with
  | whole n => exact kept word
  | real x =>
    obtain ⟨n, _, word⟩ := Option.bind_eq_some_iff.mp word
    exact kept word

structure Listing (α : Type) where
  next : List (Quantity α)
  probability : List (Quantity α)
  reward : List (Quantity α)

section Checks

variable {α : Type} [Scalar α] {states s a : Nat} {tolerance : α}

namespace Columns

def Even (c : Columns α) : Prop := c.next.length = c.probability.length ∧ c.probability.length = c.reward.length

def Inside (states : Nat) (c : Columns α) : Prop := ∀ i ∈ c.next, 0 ≤ i ∧ i < (states : Int)

def Bounded (tolerance : α) (c : Columns α) : Prop :=
  ∀ p ∈ c.probability, Scalar.le p Scalar.zero = false ∧ Scalar.lt (Scalar.one + tolerance) p = false

def Balanced (tolerance : α) (c : Columns α) : Prop :=
  Scalar.lt tolerance (Scalar.abs (Scalar.arraySum c.probability - Scalar.one)) = false

structure Fits (states : Nat) (tolerance : α) (c : Columns α) : Prop where
  even : c.Even
  nonempty : c.next ≠ []
  inside : c.Inside states
  bounded : c.Bounded tolerance
  balanced : c.Balanced tolerance

-- What is reported: the first of these that does not hold.
inductive Fault (states : Nat) (tolerance : α) (s a : Nat) (c : Columns α) : Failure α → Prop where
  | lengths (uneven : ¬c.Even) : Fault states tolerance s a c (.transitionLengths s a)
  | empty (even : c.Even) (none : c.next = []) : Fault states tolerance s a c (.noTransitions s a)
  | outside (even : c.Even) (nonempty : c.next ≠ []) (out : ¬c.Inside states) :
      Fault states tolerance s a c (.nextStateOutside s a)
  | probability (even : c.Even) (nonempty : c.next ≠ []) (inside : c.Inside states) (out : ¬c.Bounded tolerance) :
      Fault states tolerance s a c (.probabilityOutside s a)
  | sum (even : c.Even) (nonempty : c.next ≠ []) (inside : c.Inside states) (bounded : c.Bounded tolerance)
      (off : ¬c.Balanced tolerance) : Fault states tolerance s a c (.probabilitySum s a (Scalar.arraySum c.probability))

theorem fits_or_fault (states : Nat) (tolerance : α) (s a : Nat) (c : Columns α) :
    c.Fits states tolerance ∨ ∃ e, c.Fault states tolerance s a e := by
  by_cases even : c.Even
  · by_cases none : c.next = []
    · exact .inr ⟨_, .empty even none⟩
    · by_cases inside : c.Inside states
      · by_cases bounded : c.Bounded tolerance
        · by_cases balanced : c.Balanced tolerance
          · exact .inl ⟨even, none, inside, bounded, balanced⟩
          · exact .inr ⟨_, .sum even none inside bounded balanced⟩
        · exact .inr ⟨_, .probability even none inside bounded⟩
      · exact .inr ⟨_, .outside even none inside⟩
  · exact .inr ⟨_, .lengths even⟩

omit [Scalar α] in
theorem length_even {c : Columns α} (even : c.Even) : (ActionArrays.ofColumns c).length s a = .ok c.next.length :=
  ActionArrays.length_ok.mpr ⟨rfl, congrArg some even.1.symm, congrArg some (even.1.trans even.2).symm⟩

omit [Scalar α] in
theorem length_uneven {c : Columns α} (uneven : ¬c.Even) :
    (ActionArrays.ofColumns c).length s a = .error (.transitionLengths s a) := by
  have next : (ActionArrays.ofColumns c).next.length? = some c.next.length := rfl
  have probability : (ActionArrays.ofColumns c).probability.length? = some c.probability.length := rfl
  have reward : (ActionArrays.ofColumns c).reward.length? = some c.reward.length := rfl
  rw [ActionArrays.length, next, probability, reward]
  by_cases first : c.next.length = c.probability.length
  · have second : c.probability.length ≠ c.reward.length := fun second => uneven ⟨first, second⟩
    simp [first, second]
  · simp [first]

theorem Fault.check {c : Columns α} {e : Failure α} (fault : c.Fault states tolerance s a e) :
    (ActionArrays.ofColumns c).check states tolerance s a = .error e := by
  have filled (nonempty : c.next ≠ []) : (c.next.length == 0) = false := by simpa using nonempty
  have inside_test : c.Inside states ↔
      ((ActionArrays.ofColumns c).next.cells.any fun i => i < 0 || (states : Int) ≤ i) = false := by
    simp [Inside, ActionArrays.ofColumns, Tensor.ofVector]
  have bounded_test : c.Bounded tolerance ↔
      ((ActionArrays.ofColumns c).probability.cells.any (fun p => Scalar.le p Scalar.zero) ||
        (ActionArrays.ofColumns c).probability.cells.any fun p => Scalar.lt (Scalar.one + tolerance) p) = false := by
    simp [Bounded, ActionArrays.ofColumns, Tensor.ofVector, forall_and]
  unfold ActionArrays.check
  cases fault with
  | lengths uneven => rw [length_uneven uneven, Outcome.error_bind]
  | empty even none => rw [length_even even, Outcome.ok_bind, none]; rfl
  | outside even nonempty out =>
    rw [length_even even, Outcome.ok_bind]
    refine Outcome.unless_error.mpr (.inr ⟨filled nonempty, Outcome.unless_error.mpr (.inl ⟨?_, rfl⟩)⟩)
    exact Bool.eq_true_of_not_eq_false (mt inside_test.mpr out)
  | probability even nonempty inside out =>
    rw [length_even even, Outcome.ok_bind]
    refine Outcome.unless_error.mpr (.inr ⟨filled nonempty, ?_⟩)
    refine Outcome.unless_error.mpr (.inr ⟨inside_test.mp inside, ?_⟩)
    exact Outcome.unless_error.mpr (.inl ⟨Bool.eq_true_of_not_eq_false (mt bounded_test.mpr out), rfl⟩)
  | sum even nonempty inside bounded off =>
    rw [length_even even, Outcome.ok_bind]
    refine Outcome.unless_error.mpr (.inr ⟨filled nonempty, ?_⟩)
    refine Outcome.unless_error.mpr (.inr ⟨inside_test.mp inside, ?_⟩)
    refine Outcome.unless_error.mpr (.inr ⟨bounded_test.mp bounded, ?_⟩)
    exact if_pos (Bool.eq_true_of_not_eq_false off)

theorem Fault.kind {c : Columns α} {e : Failure α} (fault : c.Fault states tolerance s a e) : e.kind = .structural := by
  cases fault <;> rfl

theorem Fits.admissible {c : Columns α} (fits : c.Fits states tolerance) :
    (ActionArrays.ofColumns c).Admissible states tolerance where
  lengths := ⟨c.next.length, rfl, congrArg some fits.even.1.symm, congrArg some (fits.even.1.trans fits.even.2).symm,
    fun none => fits.nonempty (List.length_eq_zero_iff.mp none)⟩
  inside i member := fits.inside i (List.mem_toArray.mp member)
  positive p member := (fits.bounded p (List.mem_toArray.mp member)).1
  bounded p member := (fits.bounded p (List.mem_toArray.mp member)).2
  total := fits.balanced

theorem fits_iff {c : Columns α} : (ActionArrays.ofColumns c).Admissible states tolerance ↔ c.Fits states tolerance := by
  constructor
  · intro admissible
    rcases c.fits_or_fault states tolerance 0 0 with fits | ⟨e, fault⟩
    · exact fits
    · cases fault.check.symm.trans (ActionArrays.check_ok.mpr admissible)
  · exact Fits.admissible

end Columns

namespace FlatModel

theorem row_admissible_or_refused (states : Nat) (tolerance : α) (s a : Nat) (row : List (Columns α)) :
    (∀ c ∈ row, (ActionArrays.ofColumns c).Admissible states tolerance) ∨
      ∃ e, readActions states tolerance s a (row.map fun c => .ok (.ofColumns c)) = .error e ∧ e.kind = .structural := by
  induction row generalizing a with
  | nil => exact .inl fun c member => by cases member
  | cons c rest ih =>
    rw [List.map_cons, readActions, Outcome.ok_bind]
    rcases c.fits_or_fault states tolerance s a with fits | ⟨e, fault⟩
    · rcases ih (a + 1) with later | ⟨e, refused, structural⟩
      · exact .inl (List.forall_mem_cons.mpr ⟨fits.admissible, later⟩)
      · refine .inr ⟨e, ?_, structural⟩
        rw [ActionArrays.check_ok.mpr fits.admissible, Outcome.ok_bind, refused, Outcome.error_bind]
    · refine .inr ⟨e, ?_, fault.kind⟩
      rw [fault.check, Outcome.error_bind]

theorem rows_admissible_or_refused (states : Nat) (tolerance : α) (s : Nat) (rows : List (List (Columns α))) :
    (∀ row ∈ rows, row ≠ [] ∧ ∀ c ∈ row, (ActionArrays.ofColumns c).Admissible states tolerance) ∨
      ∃ e, readStates states tolerance s (rows.map fun row => .ok (row.map fun c => .ok (.ofColumns c))) = .error e ∧
        e.kind = .structural := by
  induction rows generalizing s with
  | nil => exact .inl fun row member => by cases member
  | cons row rest ih =>
    rw [List.map_cons, readStates, Outcome.ok_bind]
    by_cases idle : row = []
    · subst idle
      exact .inr ⟨_, rfl, rfl⟩
    · rw [if_neg (by simpa using idle)]
      rcases row_admissible_or_refused states tolerance s 0 row with here | ⟨e, refused, structural⟩
      · rcases ih (s + 1) with later | ⟨e, refused, structural⟩
        · exact .inl (List.forall_mem_cons.mpr ⟨⟨idle, here⟩, later⟩)
        · refine .inr ⟨e, ?_, structural⟩
          have given : row.map (fun c => (Except.ok (.ofColumns c) : Outcome α (ActionArrays α)))
              = (row.map ActionArrays.ofColumns).map .ok := (List.map_map ..).symm
          rw [given, readActions_ok (List.forall_mem_map.mpr here), Outcome.ok_bind, refused, Outcome.error_bind]
      · refine .inr ⟨e, ?_, structural⟩
        rw [refused, Outcome.error_bind]

theorem admissible_or_refused (tolerance : α) (rows : List (List (Columns α))) :
    (rows ≠ [] ∧ ∀ row ∈ rows, row ≠ [] ∧ ∀ c ∈ row, (ActionArrays.ofColumns c).Admissible rows.length tolerance) ∨
      ∃ e, build tolerance (rows.map fun row => .ok (row.map fun c => .ok (.ofColumns c))) = .error e ∧
        e.kind = .structural := by
  by_cases none : rows = []
  · subst none
    exact .inr ⟨_, rfl, rfl⟩
  · rcases rows_admissible_or_refused rows.length tolerance 0 rows with each | ⟨e, refused, structural⟩
    · exact .inl ⟨none, each⟩
    · refine .inr ⟨e, ?_, structural⟩
      rw [build, if_neg (by simpa using none), List.length_map, refused, Outcome.error_bind]

end FlatModel

namespace Listing

def columns? (c : Listing α) : Option (Columns α) := do
  return ⟨← c.next.mapM Quantity.word?, ← c.probability.mapM Quantity.value?, ← c.reward.mapM Quantity.value?⟩

def arrays (c : Listing α) : Outcome α (ActionArrays α) := (Outcome.ofOption c.columns?).map .ofColumns

def Accepts (states : Nat) (tolerance : α) (c : Listing α) (columns : Columns α) : Prop :=
  c.columns? = some columns ∧ columns.Fits states tolerance

-- What is wrong with an action; it is converted before it is checked.
inductive Fault (states : Nat) (tolerance : α) (s a : Nat) (c : Listing α) : Failure α → Prop where
  | unreadable (none : c.columns? = none) : Fault states tolerance s a c .invalidInput
  | refused {columns : Columns α} {e : Failure α} (read : c.columns? = some columns)
      (fault : columns.Fault states tolerance s a e) : Fault states tolerance s a c e

inductive RowFault (states : Nat) (tolerance : α) (s : Nat) : Nat → List (Listing α) → Failure α → Prop where
  | here {a : Nat} {c : Listing α} {rest : List (Listing α)} {e : Failure α}
      (fault : c.Fault states tolerance s a e) : RowFault states tolerance s a (c :: rest) e
  | later {a : Nat} {c : Listing α} {columns : Columns α} {rest : List (Listing α)} {e : Failure α}
      (accepts : c.Accepts states tolerance columns) (fault : RowFault states tolerance s (a + 1) rest e) :
      RowFault states tolerance s a (c :: rest) e

inductive TableFault (states : Nat) (tolerance : α) : Nat → List (List (Listing α)) → Failure α → Prop where
  | idle {s : Nat} {rest : List (List (Listing α))} :
      TableFault states tolerance s ([] :: rest) (.stateWithoutActions s)
  | here {s : Nat} {actions : List (Listing α)} {rest : List (List (Listing α))} {e : Failure α}
      (fault : RowFault states tolerance s 0 actions e) : TableFault states tolerance s (actions :: rest) e
  | later {s : Nat} {actions : List (Listing α)} {row : List (Columns α)} {rest : List (List (Listing α))}
      {e : Failure α} (nonempty : actions ≠ []) (accepts : List.Forall₂ (Accepts states tolerance) actions row)
      (fault : TableFault states tolerance (s + 1) rest e) : TableFault states tolerance s (actions :: rest) e

theorem arrays_ok {c : Listing α} {columns : Columns α} (read : c.columns? = some columns) :
    c.arrays = .ok (.ofColumns columns) := by rw [arrays, read]; rfl

theorem columns?_words {c : Listing α} {columns : Columns α} (read : c.columns? = some columns) :
    ∀ i ∈ columns.next, Literal.inWord i = true := by
  obtain ⟨next, known, read⟩ := Option.bind_eq_some_iff.mp read
  obtain ⟨_, _, read⟩ := Option.bind_eq_some_iff.mp read
  obtain ⟨_, _, read⟩ := Option.bind_eq_some_iff.mp read
  cases read
  intro i member
  obtain ⟨q, _, word⟩ := exists_left_of_forall₂ (Outcome.mapM_eq_some.mp known) i member
  exact q.word?_inWord word

theorem accepts_or_fault (states : Nat) (tolerance : α) (s a : Nat) (c : Listing α) :
    (∃ columns, c.Accepts states tolerance columns) ∨ ∃ e, c.Fault states tolerance s a e := by
  cases read : c.columns? with
  | none => exact .inr ⟨_, .unreadable read⟩
  | some columns =>
    rcases columns.fits_or_fault states tolerance s a with fits | ⟨e, fault⟩
    · exact .inl ⟨columns, read, fits⟩
    · exact .inr ⟨e, .refused read fault⟩

theorem row_accepts_or_fault (states : Nat) (tolerance : α) (s : Nat) (actions : List (Listing α)) (a : Nat) :
    (∃ row, List.Forall₂ (Accepts states tolerance) actions row) ∨ ∃ e, RowFault states tolerance s a actions e := by
  induction actions generalizing a with
  | nil => exact .inl ⟨[], .nil⟩
  | cons c rest ih =>
    rcases c.accepts_or_fault states tolerance s a with ⟨columns, accepts⟩ | ⟨e, fault⟩
    · rcases ih (a + 1) with ⟨row, later⟩ | ⟨e, fault⟩
      · exact .inl ⟨columns :: row, .cons accepts later⟩
      · exact .inr ⟨e, .later accepts fault⟩
    · exact .inr ⟨e, .here fault⟩

def RowAccepts (states : Nat) (tolerance : α) (actions : List (Listing α)) (row : List (Columns α)) : Prop :=
  actions ≠ [] ∧ List.Forall₂ (Accepts states tolerance) actions row

theorem table_accepts_or_fault (states : Nat) (tolerance : α) (table : List (List (Listing α))) (s : Nat) :
    (∃ rows, List.Forall₂ (RowAccepts states tolerance) table rows) ∨
      ∃ e, TableFault states tolerance s table e := by
  induction table generalizing s with
  | nil => exact .inl ⟨[], .nil⟩
  | cons actions rest ih =>
    by_cases idle : actions = []
    · subst idle
      exact .inr ⟨_, .idle⟩
    · rcases row_accepts_or_fault states tolerance s actions 0 with ⟨row, accepts⟩ | ⟨e, fault⟩
      · rcases ih (s + 1) with ⟨rows, later⟩ | ⟨e, fault⟩
        · exact .inl ⟨row :: rows, .cons ⟨idle, accepts⟩ later⟩
        · exact .inr ⟨e, .later idle accepts fault⟩
      · exact .inr ⟨e, .here fault⟩

theorem RowFault.read {actions : List (Listing α)} {e : Failure α} (fault : RowFault states tolerance s a actions e) :
    FlatModel.readActions states tolerance s a (actions.map arrays) = .error e := by
  induction fault with
  | @here a c rest e fault =>
    rw [List.map_cons, FlatModel.readActions]
    cases fault with
    | unreadable none => rw [arrays, none]; rfl
    | refused read fault => rw [arrays_ok read, Outcome.ok_bind, fault.check, Outcome.error_bind]
  | later accepts _ ih =>
    rw [List.map_cons, FlatModel.readActions, arrays_ok accepts.1, Outcome.ok_bind,
      ActionArrays.check_ok.mpr accepts.2.admissible, Outcome.ok_bind, ih, Outcome.error_bind]

theorem row_read {actions : List (Listing α)} {row : List (Columns α)}
    (accepts : List.Forall₂ (Accepts states tolerance) actions row) :
    actions.map arrays = row.map fun c => .ok (.ofColumns c) := by
  induction accepts with
  | nil => rfl
  | cons first _ ih => rw [List.map_cons, List.map_cons, arrays_ok first.1, ih]

theorem row_ok {actions : List (Listing α)} {row : List (Columns α)}
    (accepts : List.Forall₂ (Accepts states tolerance) actions row) :
    FlatModel.readActions states tolerance s a (actions.map arrays) = .ok (row.map .ofColumns) := by
  have given : actions.map arrays = (row.map ActionArrays.ofColumns).map .ok := by
    rw [row_read accepts, List.map_map]
    rfl
  rw [given]
  refine FlatModel.readActions_ok (fun x member => ?_) a
  obtain ⟨c, inRow, rfl⟩ := List.mem_map.mp member
  obtain ⟨_, _, accepted⟩ := exists_left_of_forall₂ accepts c inRow
  exact accepted.2.admissible

theorem TableFault.read {table : List (List (Listing α))} {e : Failure α}
    (fault : TableFault states tolerance s table e) :
    FlatModel.readStates states tolerance s (table.map fun actions => .ok (actions.map arrays)) = .error e := by
  induction fault with
  | idle => rfl
  | @here s actions rest e fault =>
    have idle : actions ≠ [] := by
      rintro rfl
      cases fault
    rw [List.map_cons, FlatModel.readStates, Outcome.ok_bind, if_neg (by simpa using idle), fault.read,
      Outcome.error_bind]
  | later nonempty accepts _ ih =>
    rw [List.map_cons, FlatModel.readStates, Outcome.ok_bind, if_neg (by simpa using nonempty), row_ok accepts,
      Outcome.ok_bind, ih, Outcome.error_bind]

theorem Fault.kind {c : Listing α} {e : Failure α} (fault : c.Fault states tolerance s a e) :
    e.kind = .structural ∨ e = .invalidInput ∧ c.columns? = none := by
  cases fault with
  | unreadable none => exact .inr ⟨rfl, none⟩
  | refused _ fault => exact .inl fault.kind

theorem RowFault.kind {actions : List (Listing α)} {e : Failure α} (fault : RowFault states tolerance s a actions e) :
    e.kind = .structural ∨ e = .invalidInput ∧ ∃ c ∈ actions, c.columns? = none := by
  induction fault with
  | here fault => exact fault.kind.imp_right fun ⟨same, missing⟩ => ⟨same, _, List.mem_cons_self, missing⟩
  | later _ _ ih =>
    exact ih.imp_right fun ⟨same, c, member, missing⟩ => ⟨same, c, List.mem_cons_of_mem _ member, missing⟩

theorem TableFault.kind {table : List (List (Listing α))} {e : Failure α}
    (fault : TableFault states tolerance s table e) :
    e.kind = .structural ∨ e = .invalidInput ∧ ∃ actions ∈ table, ∃ c ∈ actions, c.columns? = none := by
  induction fault with
  | idle => exact .inl rfl
  | here fault => exact fault.kind.imp_right fun ⟨same, found⟩ => ⟨same, _, List.mem_cons_self, found⟩
  | later _ _ _ ih =>
    exact ih.imp_right fun ⟨same, actions, member, found⟩ => ⟨same, actions, List.mem_cons_of_mem _ member, found⟩

end Listing

namespace FlatModel

def ofListings (tolerance : α) (table : List (List (Listing α))) : Outcome α (FlatModel α) :=
  build tolerance (table.map fun actions => .ok (actions.map Listing.arrays))

structure Takes (tolerance : α) (table : List (List (Listing α))) (rows : List (List (Columns α))) : Prop where
  nonempty : table ≠ []
  states : List.Forall₂ (Listing.RowAccepts table.length tolerance) table rows

inductive Refuses (tolerance : α) (table : List (List (Listing α))) : Failure α → Prop where
  | noStates (none : table = []) : Refuses tolerance table .noStates
  | fault {e : Failure α} (first : Listing.TableFault table.length tolerance 0 table e) : Refuses tolerance table e

variable {table : List (List (Listing α))} {rows : List (List (Columns α))}

theorem takes_or_refuses (tolerance : α) (table : List (List (Listing α))) :
    (∃ rows, Takes tolerance table rows) ∨ ∃ e, Refuses tolerance table e := by
  by_cases none : table = []
  · exact .inr ⟨_, .noStates none⟩
  · rcases Listing.table_accepts_or_fault table.length tolerance table 0 with ⟨rows, accepts⟩ | ⟨e, fault⟩
    · exact .inl ⟨rows, none, accepts⟩
    · exact .inr ⟨e, .fault fault⟩

theorem Takes.fits (takes : Takes tolerance table rows) :
    ∀ row ∈ rows, row ≠ [] ∧ ∀ c ∈ row, c.Fits rows.length tolerance := by
  intro row member
  obtain ⟨actions, _, nonempty, accepts⟩ := exists_left_of_forall₂ takes.states row member
  refine ⟨fun none => ?_, fun c member => ?_⟩
  · subst none
    cases accepts
    exact nonempty rfl
  · obtain ⟨_, _, accepted⟩ := exists_left_of_forall₂ accepts c member
    rw [← takes.states.length_eq]
    exact accepted.2

theorem Takes.buildable (takes : Takes tolerance table rows) : rows ≠ [] ∧
    ∀ row ∈ rows, row ≠ [] ∧ ∀ c ∈ row, (ActionArrays.ofColumns c).Admissible rows.length tolerance := by
  refine ⟨fun none => takes.nonempty ?_, fun row member => ?_⟩
  · subst none
    exact List.length_eq_zero_iff.mp takes.states.length_eq
  · obtain ⟨nonempty, fits⟩ := takes.fits row member
    exact ⟨nonempty, fun c member => (fits c member).admissible⟩

theorem Takes.ofListings (takes : Takes tolerance table rows) : ofListings tolerance table = .ok (laid rows) := by
  have given : table.map (fun actions => (Except.ok (actions.map Listing.arrays) :
      Outcome α (List (Outcome α (ActionArrays α)))))
      = rows.map fun row => .ok (row.map fun c => .ok (.ofColumns c)) := by
    refine List.ext_getElem (by simp [takes.states.length_eq]) fun s inside _ => ?_
    simp only [List.getElem_map]
    rw [List.length_map] at inside
    exact congrArg _ (Listing.row_read (takes.states.get inside (takes.states.length_eq ▸ inside)).2)
  rw [FlatModel.ofListings, given]
  exact build_laid takes.buildable.1 takes.buildable.2

theorem Refuses.ofListings {e : Failure α} (refuses : Refuses tolerance table e) :
    ofListings tolerance table = .error e := by
  cases refuses with
  | noStates none =>
    subst none
    rfl
  | fault first =>
    have some : table ≠ [] := by
      rintro rfl
      cases first
    rw [FlatModel.ofListings, build, if_neg (by simpa using some), List.length_map, first.read, Outcome.error_bind]

theorem Refuses.kind {e : Failure α} (refuses : Refuses tolerance table e) :
    e.kind = .structural ∨ e = .invalidInput ∧ ∃ actions ∈ table, ∃ c ∈ actions, c.columns? = none := by
  cases refuses with
  | noStates _ => exact .inl rfl
  | fault first => exact first.kind

theorem ofListings_ok {f : FlatModel α} :
    ofListings tolerance table = .ok f ↔ ∃ rows, Takes tolerance table rows ∧ f = laid rows := by
  constructor
  · intro made
    rcases takes_or_refuses tolerance table with ⟨rows, takes⟩ | ⟨e, refuses⟩
    · exact ⟨rows, takes, Except.ok.inj (made.symm.trans takes.ofListings)⟩
    · cases made.symm.trans refuses.ofListings
  · rintro ⟨rows, takes, rfl⟩
    exact takes.ofListings

theorem ofListings_error {e : Failure α} : ofListings tolerance table = .error e ↔ Refuses tolerance table e := by
  constructor
  · intro failed
    rcases takes_or_refuses tolerance table with ⟨rows, takes⟩ | ⟨e', refuses⟩
    · cases failed.symm.trans takes.ofListings
    · cases failed.symm.trans refuses.ofListings
      exact refuses
  · exact Refuses.ofListings

end FlatModel

end Checks

end MarkovDecision
