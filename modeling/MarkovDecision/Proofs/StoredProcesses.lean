import MarkovDecision.Proofs.RewardProcesses
import MarkovDecision.Proofs.StoredRuns

namespace MarkovDecision

variable {α : Type} [Scalar α] {m : Model α} {given : PolicyData α}

section Rows

theorem Model.foldOutcomes_keeps {β : Type} (keeps : β → Prop) {step : β → StateLabel → α → α → Outcome α β}
    (steps : ∀ acc label p r acc', keeps acc → step acc label p r = .ok acc' → keeps acc') {policy : Policy α}
    {s : Int} {start last : β} (opening : keeps start) (done : m.foldOutcomes policy s step start = .ok last) :
    keeps last := by
  obtain ⟨choices, _, done⟩ := Outcome.bind_ok.mp done
  refine Outcome.foldlM_keeps (fun acc choice _ acc' kept walked => ?_) opening done
  obtain ⟨ts, _, walked⟩ := Outcome.bind_ok.mp walked
  have any : ∀ t ∈ ts, True := fun _ _ => trivial
  exact foldAction_keeps (fun acc t acc' kept _ => steps acc t.next _ _ acc' kept) any kept walked

namespace RewardProcess

theorem row_size {policy : Policy α} {s : Nat} {x : Array α × α} (done : row m policy s = .ok x) :
    x.1.size = m.stateCount := by
  refine Model.foldOutcomes_keeps (fun acc => acc.1.size = m.stateCount) (fun acc label p r acc' kept added => ?_)
    Array.size_replicate done
  obtain ⟨i, _, added⟩ := Outcome.bind_ok.mp added
  split at added
  · cases added
    exact Array.size_setIfInBounds.trans kept
  · cases added

theorem ofPolicy_sized {process : RewardProcess α} (done : ofPolicy m given = .ok process) :
    process.transition.size = m.stateCount ∧ process.reward.size = m.stateCount ∧
      ∀ row ∈ process.transition, row.size = m.stateCount := by
  obtain ⟨policy, _, done⟩ := Outcome.bind_ok.mp done
  obtain ⟨rows, known, same⟩ := Outcome.bind_ok.mp done
  cases same
  obtain ⟨length, each⟩ := Outcome.mapM_range_get known
  refine ⟨by simp [length], by simp [length], fun row member => ?_⟩
  obtain ⟨x, listed, rfl⟩ := List.mem_map.mp (List.mem_toArray.mp member)
  obtain ⟨s, inside, rfl⟩ := List.getElem_of_mem listed
  exact row_size (each s inside)

end RewardProcess

end Rows

namespace Storage

variable {before : Storage α} {v transition reward : View}

structure Floats (m : Storage α) (v : View) : Prop where
  real : m.isWhole v = false
  room : (m.reals v).cells.size = v.size

theorem Floats.fill (floats : before.Floats v) (w : View) (xs : List α) : (before.fill w xs).Floats v :=
  ⟨(isWhole_fill xs).trans floats.real, (size_fill xs).trans floats.room⟩

theorem reals_shape (m : Storage α) (v : View) : (m.reals v).shape = v.shape := by
  rw [reals]
  cases m.buffer v <;> rfl

theorem Floats.reals_fill (floats : before.Floats v) {xs : List α} (length : xs.length = v.size) :
    (before.fill v xs).reals v = ⟨v.shape, xs.toArray⟩ := by
  have cells : ((before.fill v xs).reals v).cells = xs.toArray := by
    have size : ((before.fill v xs).reals v).cells.size = v.size := (floats.fill v xs).room
    refine Array.ext_getElem? fun i => ?_
    by_cases inside : i < v.size
    · rw [Storage.reals_fill floats.real floats.room xs i inside, List.getElem?_eq_getElem (by omega), Option.some_or,
        List.getElem?_toArray, List.getElem?_eq_getElem]
    · rw [Array.getElem?_eq_none (by omega), Array.getElem?_eq_none (by simp; omega)]
  exact congrArg₂ Tensor.mk (reals_shape _ v) cells

theorem rewardProcess_runOn (m : Model α) (given : PolicyData α) (transition reward : View) (before : Storage α) :
    (rewardProcess m given transition reward).runOn before
      = match (if transition.shape = [m.stateCount, m.stateCount] ∧ reward.shape = [m.stateCount]
          then RewardProcess.ofPolicy m given else .error (.rewardProcessBuffers m.stateCount)) with
        | .error e => (.error e, before)
        | .ok process => (.ok (), (before.fill transition (process.transition.toList.flatMap Array.toList)).fill reward
            process.reward.toList) := by
  unfold rewardProcess
  by_cases shapes : transition.shape = [m.stateCount, m.stateCount] ∧ reward.shape = [m.stateCount]
  · rw [if_pos shapes, if_neg (by simp [shapes])]
    cases made : RewardProcess.ofPolicy m given with
    | error e => rfl
    | ok process => rfl
  · rw [if_neg shapes, if_pos (by simpa [-not_and, Classical.not_and_iff_not_or_not] using shapes)]
    rfl

theorem transition_cells {process : RewardProcess α} (made : RewardProcess.ofPolicy m given = .ok process) :
    (process.transition.toList.flatMap Array.toList).length = m.stateCount * m.stateCount ∧
      (⟨[m.stateCount, m.stateCount], (process.transition.toList.flatMap Array.toList).toArray⟩ : Tensor α)
        = .ofRows m.stateCount process.transition := by
  obtain ⟨rows, _, each⟩ := RewardProcess.ofPolicy_sized made
  constructor
  · have widths : process.transition.toList.map (fun row => row.toList.length)
        = List.replicate m.stateCount m.stateCount := by
      refine List.eq_replicate_iff.mpr ⟨by simp [rows], fun k member => ?_⟩
      obtain ⟨row, listed, rfl⟩ := List.mem_map.mp member
      exact each row (Array.mem_toList_iff.mp listed)
    rw [List.length_flatMap, widths, List.sum_replicate, smul_eq_mul]
  · rw [Tensor.ofRows, ← Array.foldl_toList, foldl_append, Array.empty_append, List.flatMap_def, rows]

-- Nothing is written before the whole process is known. A buffer is overwritten again only where
-- the two overlap, since the rewards are written last.
theorem rewardProcess_atomic (m : Model α) (given : PolicyData α) (transition reward : View) (before : Storage α) :
    ∃ outcome after, (rewardProcess m given transition reward).runOn before = (outcome, after) ∧
      (transition.shape ≠ [m.stateCount, m.stateCount] ∨ reward.shape ≠ [m.stateCount] →
        outcome = .error (.rewardProcessBuffers m.stateCount)) ∧
      (transition.shape = [m.stateCount, m.stateCount] → reward.shape = [m.stateCount] →
        outcome = (RewardProcess.ofPolicy m given).map fun _ => ()) ∧
      (∀ e, outcome = .error e → after = before) ∧
      (outcome = .ok () → ∃ process, RewardProcess.ofPolicy m given = .ok process ∧
        (before.Floats reward → after.reals reward = .ofVector process.reward) ∧
        (before.Floats transition → transition.Apart reward →
          after.reals transition = .ofRows m.stateCount process.transition)) ∧
      ∀ w : View, w.Apart transition → w.Apart reward →
        after.reals w = before.reals w ∧ after.wholes w = before.wholes w := by
  have ran := rewardProcess_runOn m given transition reward before
  by_cases shapes : transition.shape = [m.stateCount, m.stateCount] ∧ reward.shape = [m.stateCount]
  · rw [if_pos shapes] at ran
    have fits (wrong : transition.shape ≠ [m.stateCount, m.stateCount] ∨ reward.shape ≠ [m.stateCount]) : False :=
      wrong.elim (fun other => other shapes.1) fun other => other shapes.2
    cases made : RewardProcess.ofPolicy m given with
    | error e =>
      rw [made] at ran
      exact ⟨_, _, ran, fun wrong => (fits wrong).elim, fun _ _ => rfl, fun _ _ => rfl, fun done => (by cases done),
        fun _ _ _ => ⟨rfl, rfl⟩⟩
    | ok process =>
      rw [made] at ran
      obtain ⟨length, rows⟩ := transition_cells made
      obtain ⟨_, rewards, _⟩ := RewardProcess.ofPolicy_sized made
      have vector : process.reward.toList.length = reward.size := by
        rw [View.size_vector shapes.2, Array.length_toList, rewards]
      refine ⟨_, _, ran, fun wrong => (fits wrong).elim, fun _ _ => rfl, fun e failed => (by cases failed),
        fun _ => ⟨process, rfl, ?_, ?_⟩, ?_⟩
      · intro floats
        rw [(floats.fill transition _).reals_fill vector, shapes.2, Tensor.ofVector, rewards, Array.toArray_toList]
      · intro floats apart
        rw [reals_fill_apart apart, floats.reals_fill (by rw [View.size_matrix shapes.1, length]), shapes.1, rows]
      · intro w apart apart'
        exact ⟨(reals_fill_apart apart' _).trans (reals_fill_apart apart _),
          (wholes_fill_apart apart' _).trans (wholes_fill_apart apart _)⟩
  · rw [if_neg shapes] at ran
    exact ⟨_, _, ran, fun _ => rfl, fun first second => absurd ⟨first, second⟩ shapes, fun _ _ => rfl,
      fun done => (by cases done), fun _ _ _ => ⟨rfl, rfl⟩⟩

section Instances

def paying : Table (Extended ℚ) := ⟨#[#[.ok [⟨.index 0, .whole 1, .whole 2⟩]]]⟩

def payingRun (transition reward : View) : InPlace (Storage (Extended ℚ)) (Extended ℚ) Unit :=
  rewardProcess (.table paying) (.policy (.stationary #[0])) transition reward

def paid : Storage (Extended ℚ) := ⟨#[.reals #[.finite 7], .reals #[.finite 7]]⟩

def matrixView : View := ⟨0, 0, [1, 1]⟩

def vectorView : View := ⟨1, 0, [1]⟩

def rowView : View := ⟨0, 0, [1]⟩

theorem rewardProcess_atomic_paying : ∃ process after,
    RewardProcess.ofPolicy (.table paying) (.policy (.stationary #[0])) = .ok process ∧
    (payingRun matrixView vectorView).runOn paid = (.ok (), after) ∧
    after.reals matrixView = .ofRows 1 process.transition ∧ after.reals vectorView = .ofVector process.reward := by
  obtain ⟨outcome, after, ran, _, same, _, written, _⟩ :=
    rewardProcess_atomic (.table paying) (.policy (.stationary #[0])) matrixView vectorView paid
  obtain ⟨process, made⟩ : ∃ process,
      RewardProcess.ofPolicy (.table paying) (.policy (.stationary #[0])) = .ok process :=
    Outcome.exists_ok (by decide +kernel)
  obtain rfl : outcome = .ok () := (same rfl rfl).trans (by rw [made]; rfl)
  obtain ⟨process, made, reward, transition⟩ := written rfl
  exact ⟨process, after, made, ran, transition ⟨rfl, rfl⟩ fun other => absurd other (by decide), reward ⟨rfl, rfl⟩⟩

-- Where the rewards go into a row of the matrix, the matrix shows a reward in the end.
theorem rewardProcess_shared_row : ∃ process after, paid.Floats matrixView ∧ paid.Floats rowView ∧
    RewardProcess.ofPolicy (.table paying) (.policy (.stationary #[0])) = .ok process ∧
    (payingRun matrixView rowView).runOn paid = (.ok (), after) ∧
    process.transition = #[#[.finite 1]] ∧ (after.reals matrixView).cells = #[.finite 2] := by
  obtain ⟨process, made⟩ : ∃ process,
      RewardProcess.ofPolicy (.table paying) (.policy (.stationary #[0])) = .ok process :=
    Outcome.exists_ok (by decide +kernel)
  have transition : (RewardProcess.ofPolicy (.table paying) (.policy (.stationary #[0]))).toOption.map
      RewardProcess.transition = some #[#[.finite 1]] := by decide +kernel
  rw [made] at transition
  have ran := rewardProcess_runOn (.table paying) (.policy (.stationary #[0])) matrixView rowView paid
  rw [if_pos ⟨rfl, rfl⟩, made] at ran
  have shown : (((payingRun matrixView rowView).runOn paid).2.reals matrixView).cells = #[.finite 2] := by
    decide +kernel
  rw [payingRun, ran] at shown
  exact ⟨process, _, ⟨rfl, rfl⟩, ⟨rfl, rfl⟩, made, ran, Option.some.inj transition, shown⟩

end Instances

end Storage

end MarkovDecision
