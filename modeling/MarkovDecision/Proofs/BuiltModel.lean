import MarkovDecision.Proofs.ListedModel
import MarkovDecision.Proofs.Process.NearlyStochastic
import MarkovDecision.Proofs.RewardProcesses

namespace MarkovDecision

namespace FlatModel

section Built

variable {α : Type} [Scalar α] {tolerance : α} {given : List (Outcome α (List (Outcome α (ActionArrays α))))}
  {f : FlatModel α}

structure Checked (f : FlatModel α) (tolerance : α) : Prop where
  covers : f.Covers
  states : ∀ s < f.stateCount, ∃ k : Nat, 0 < k ∧ f.actionCount (s : Nat) = .ok (k : Int) ∧ ∀ a < k,
    ∃ c : Columns α, f.transitions (s : Nat) (a : Nat) = .ok c.transitions ∧ c.Even ∧ c.Inside f.stateCount ∧
      c.Bounded tolerance ∧ c.Balanced tolerance

theorem build_checked (shaped : ∀ row, .ok row ∈ given → ∀ c, .ok c ∈ row → c.WellShaped)
    (built : build tolerance given = .ok f) : f.Checked tolerance := by
  obtain ⟨rows, rfl, _, even, accepted⟩ := build_layout shaped built
  have states : (layout rows).stateCount = rows.length := by simp [stateCount, layout]
  refine ⟨layout_covers even, fun s inside => ?_⟩
  rw [states] at inside ⊢
  obtain ⟨row, _, _, some, checked⟩ := accepted.get (accepted.length_eq ▸ inside) inside
  refine ⟨rows[s].length, ?_, layout_actionCount inside, fun a within => ?_⟩
  · exact checked.length_eq ▸ List.length_pos_iff.mpr some
  · obtain ⟨_, _, passed⟩ := checked.get (checked.length_eq ▸ within) within
    have admissible := ActionArrays.check_ok.mp passed
    have sizes := even rows[s] (List.getElem_mem inside) rows[s][a] (List.getElem_mem within)
    refine ⟨⟨rows[s][a].next.cells.toList, rows[s][a].probability.cells.toList, rows[s][a].reward.cells.toList⟩,
      ?_, ⟨sizes.1.symm, sizes.1.trans sizes.2.symm⟩, fun i member => ?_, fun p member => ?_, admissible.total⟩
    · rw [transitions, layout_columns even inside within]
      rfl
    · rw [← accepted.length_eq]
      exact admissible.inside i (Array.mem_toList_iff.mp member)
    · have member := Array.mem_toList_iff.mp member
      exact ⟨admissible.positive p member, admissible.bounded p member⟩

theorem listings_shaped {table : List (List (Listing α))} :
    ∀ row, (Except.ok row : Outcome α _) ∈ table.map (fun actions =>
      (.ok (actions.map Listing.arrays) : Outcome α (List (Outcome α (ActionArrays α))))) →
      ∀ c, .ok c ∈ row → c.WellShaped := by
  intro row inTable c inRow
  obtain ⟨actions, _, same⟩ := List.mem_map.mp inTable
  cases same
  obtain ⟨listing, _, arrays⟩ := List.mem_map.mp inRow
  rw [Listing.arrays] at arrays
  cases read : listing.columns? with
  | none =>
    rw [read] at arrays
    cases arrays
  | some columns =>
    rw [read] at arrays
    cases arrays
    exact ActionArrays.ofColumns_shaped columns

namespace Checked

variable (checked : f.Checked tolerance)

include checked

theorem listed : (Model.flat f).Listed := by
  intro s inside
  obtain ⟨k, _, count, each⟩ := checked.states s inside
  refine ⟨k, count, fun a within => ?_⟩
  obtain ⟨c, known, _, places, _⟩ := each a within
  refine ⟨c.transitions, known, fun t member => ?_⟩
  obtain ⟨⟨i, p, r⟩, zipped, rfl⟩ := List.mem_map.mp member
  have place := places i (List.of_mem_zip zipped).1
  have inside : i.toNat < f.stateCount := by omega
  exact ⟨i.toNat, inside, by rw [Int.toNat_of_nonneg place.1]⟩

theorem acts : ∀ s < f.stateCount, (Model.flat f).actionCount (s : Nat) ≠ .ok 0 := by
  intro s inside none
  obtain ⟨k, positive, count, _⟩ := checked.states s inside
  have zero : (k : Int) = 0 := Except.ok.inj (count.symm.trans none)
  omega

end Checked

end Built

section Exact

variable {K : Type} [Field K] [LinearOrder K] [FloorRing K] {f : FlatModel (Extended K)}

theorem exact_of_columns (probabilities : ∀ x ∈ f.probability, ∃ p, x = .finite p)
    (rewards : ∀ x ∈ f.reward, ∃ r, x = .finite r) : (Model.flat f).Exact := by
  intro s a ts known t member
  obtain ⟨c, read, same⟩ := Outcome.bind_ok.mp known
  cases same
  obtain ⟨⟨i, p, r⟩, zipped, rfl⟩ := List.mem_map.mp member
  obtain ⟨inProbability, inReward⟩ := List.of_mem_zip (List.of_mem_zip zipped).2
  obtain ⟨count, _, read⟩ := Outcome.bind_ok.mp read
  dsimp only at read
  obtain ⟨_, read⟩ := Outcome.unless_ok.mp read
  obtain ⟨base, _, read⟩ := Outcome.bind_ok.mp read
  obtain ⟨first, _, read⟩ := Outcome.bind_ok.mp read
  obtain ⟨last, _, read⟩ := Outcome.bind_ok.mp read
  cases read
  have within {β : Type} {xs : Array β} {x : β} (member : x ∈ (xs.extract first last).toList) : x ∈ xs := by
    rw [Array.toList_extract, List.extract_eq_take_drop] at member
    exact Array.mem_toList_iff.mp (List.mem_of_mem_drop (List.mem_of_mem_take member))
  exact ⟨probabilities p (within inProbability), rewards r (within inReward)⟩

theorem listings_numbers [IsStrictOrderedRing K] {t : K} {table : List (List (Listing K))}
    (made : ofListings (.finite t) (table.map (List.map Listing.exact)) = .ok f) : (Model.flat f).Exact := by
  obtain ⟨_, rfl⟩ := ofListings_exact.mp made
  have pieces {cells : ActionArrays (Extended K) → Array (Extended K)} {x : Extended K}
      (finite : ∀ listing : Listing K, ∀ x ∈ cells (.ofColumns listing.columns), ∃ y, x = .finite y)
      (member : x ∈ (((table.map (List.map Listing.columns)).map (List.map ActionArrays.ofColumns)).flatten.map
        cells).foldl (· ++ ·) #[]) : ∃ y, x = .finite y := by
    rw [foldl_append, Array.empty_append, List.mem_toArray, List.mem_flatten] at member
    obtain ⟨piece, listed, member⟩ := member
    rw [List.map_map] at listed
    obtain ⟨c, inPairs, rfl⟩ := List.mem_map.mp listed
    obtain ⟨row, inRows, inRow⟩ := List.mem_flatten.mp inPairs
    rw [List.map_map] at inRows
    obtain ⟨actions, _, rfl⟩ := List.mem_map.mp inRows
    rw [Function.comp_apply, List.map_map] at inRow
    obtain ⟨listing, _, rfl⟩ := List.mem_map.mp inRow
    exact finite listing x (Array.mem_toList_iff.mp member)
  refine exact_of_columns (fun x member => pieces (fun listing y inside => ?_) member)
    fun x member => pieces (fun listing y inside => ?_) member
  · obtain ⟨q, _, rfl⟩ := List.mem_map.mp (List.mem_toArray.mp inside)
    exact ⟨_, rfl⟩
  · obtain ⟨q, _, rfl⟩ := List.mem_map.mp (List.mem_toArray.mp inside)
    exact ⟨_, rfl⟩

theorem Checked.describes {tolerance : Extended K} (checked : f.Checked tolerance) (exact : (Model.flat f).Exact) :
    ∃ P : Process f.stateCount K, (Model.flat f).Describes P := by
  have columnar : (Model.flat f).Columnar := checked.covers
  refine Model.exists_process columnar fun s inside => ?_
  obtain ⟨k, positive, count, _⟩ := checked.states s inside
  obtain ⟨k', count', each⟩ := checked.listed s inside
  obtain rfl : k' = k := Int.ofNat.inj (Except.ok.inj (count'.symm.trans count))
  refine ⟨k', positive, count, fun a within => ?_⟩
  obtain ⟨ts, known, places⟩ := each a within
  refine ⟨ts, known, fun t member => ?_⟩
  obtain ⟨i, below, label⟩ := places t member
  obtain ⟨⟨p, probability⟩, r, reward⟩ := exact s a ts known t member
  exact ⟨⟨⟨i, below⟩, p, r⟩, label, probability, reward⟩

theorem Checked.nearlyStochastic [IsStrictOrderedRing K] {tolerance : K} (checked : f.Checked (.finite tolerance))
    {P : Process f.stateCount K} (described : (Model.flat f).Describes P) : P.NearlyStochastic tolerance := by
  have column (s : Fin f.stateCount) (a : Fin (P.actionCount s)) : ∃ c : Columns (Extended K),
      c.probability = (P.branches s a).map (fun b => .finite b.probability) ∧
      c.Bounded (.finite tolerance) ∧ c.Balanced (.finite tolerance) := by
    obtain ⟨k, _, count, each⟩ := checked.states s s.isLt
    obtain rfl : k = P.actionCount s := Int.ofNat.inj (Except.ok.inj (count.symm.trans (described.actions s)))
    obtain ⟨c, known, even, _, bounded, balanced⟩ := each a a.isLt
    obtain ⟨ts, known', reads⟩ := described.outcomes s a
    obtain rfl := Except.ok.inj (known.symm.trans known')
    exact ⟨c, (Columns.transitions_probability even).symm.trans (reads_probabilities reads), bounded, balanced⟩
  refine ⟨fun s a b member => ?_, fun s a => ?_⟩
  · obtain ⟨c, listed, bounded, _⟩ := column s a
    have positive := (bounded (.finite b.probability) (listed ▸ List.mem_map_of_mem member)).1
    simpa using positive
  · obtain ⟨c, listed, _, balanced⟩ := column s a
    rw [Columns.Balanced, listed, Extended.deviation_exact Branch.probability] at balanced
    simpa [Process.mass] using balanced

end Exact

end FlatModel

end MarkovDecision
