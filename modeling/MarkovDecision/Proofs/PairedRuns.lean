import MarkovDecision.Proofs.FilledStages

namespace MarkovDecision

inductive Paired {α σ τ : Type} (ended failed : σ → τ → Prop) : Outcome α Unit × σ → Outcome α Unit × τ → Prop
  | ended {x : σ} {y : τ} (alike : ended x y) : Paired ended failed (.ok (), x) (.ok (), y)
  | failed {e : Failure α} {x : σ} {y : τ} (alike : failed x y) : Paired ended failed (.error e, x) (.error e, y)

def Unrelated {σ τ : Type} (_ : σ) (_ : τ) : Prop := True

section Runs

variable {α σ τ β : Type} {ended ended' failed : σ → τ → Prop} {x : σ} {y : τ}

theorem Paired.bind {c : InPlace σ α Unit} {d : InPlace τ α Unit} {f : Unit → InPlace σ α Unit}
    {g : Unit → InPlace τ α Unit} (first : Paired ended' failed (c.runOn x) (d.runOn y))
    (rest : ∀ x y, ended' x y → Paired ended failed ((f ()).runOn x) ((g ()).runOn y)) :
    Paired ended failed ((c >>= f).runOn x) ((d >>= g).runOn y) := by
  rw [InPlace.runOn_bind, InPlace.runOn_bind]
  generalize c.runOn x = here at first ⊢
  generalize d.runOn y = there at first ⊢
  cases first with
  | ended alike => exact rest _ _ alike
  | failed alike => exact .failed alike

theorem paired_lift {z : Outcome α β} {f : β → InPlace σ α Unit} {g : β → InPlace τ α Unit} (alike : failed x y)
    (rest : ∀ b, z = .ok b → Paired ended failed ((f b).runOn x) ((g b).runOn y)) :
    Paired ended failed ((InPlace.lift z >>= f).runOn x) ((InPlace.lift z >>= g).runOn y) := by
  rw [InPlace.runOn_bind, InPlace.runOn_bind, InPlace.runOn_lift, InPlace.runOn_lift]
  cases z with
  | error e => exact .failed alike
  | ok b => exact rest b rfl

theorem paired_get {f : σ → InPlace σ α Unit} {g : τ → InPlace τ α Unit}
    (rest : Paired ended failed ((f x).runOn x) ((g y).runOn y)) :
    Paired ended failed ((get >>= f).runOn x) ((get >>= g).runOn y) := by
  rw [InPlace.runOn_bind_ok (InPlace.runOn_get x), InPlace.runOn_bind_ok (InPlace.runOn_get y)]
  exact rest

theorem forM_paired {step : Nat → InPlace σ α Unit} {step' : Nat → InPlace τ α Unit} {reached : Nat → σ → τ → Prop}
    {n : Nat} (steps : ∀ s < n, ∀ x y, reached s x y →
      Paired (reached (s + 1)) failed ((step s).runOn x) ((step' s).runOn y)) (ready : reached 0 x y) :
    Paired (reached n) failed (((List.range n).forM step).runOn x) (((List.range n).forM step').runOn y) := by
  induction n with
  | zero => exact .ended ready
  | succ n ih =>
    rw [List.range_succ, forM_concat, forM_concat]
    exact (ih fun s below => steps s (Nat.lt_succ_of_lt below)).bind (steps n (Nat.lt_succ_self n))

end Runs

section Passes

variable {α σ τ : Type} [Scalar α] {reached : Nat → σ → τ → Prop} {mem : SweepMemory σ α} {mem' : SweepMemory τ α}
  {m : Model α} {goal : Goal α} {x : σ} {y : τ}

namespace SweepMemory

variable (reads : ∀ s < m.stateCount, ∀ x y, reached s x y → mem.value x = mem'.value y)

include reads

theorem bellmanSweep_paired (writes : ∀ s < m.stateCount, ∀ c x y, reached s x y →
      Paired (reached (s + 1)) Unrelated ((mem.write s c).runOn x) ((mem'.write s c).runOn y))
    (ready : reached 0 x y) : Paired (reached m.stateCount) Unrelated ((mem.bellmanSweep m goal .serial).runOn x)
      ((mem'.bellmanSweep m goal .serial).runOn y) := by
  have steps (choose : Nat → Reader α → Outcome α (Choice α)) (s : Nat) (inside : s < m.stateCount) (x : σ) (y : τ)
      (alike : reached s x y) : Paired (reached (s + 1)) Unrelated
        ((do let now ← get; let choice ← InPlace.lift (choose s (mem.value now)); mem.write s choice
          : InPlace σ α Unit).runOn x)
        ((do let now ← get; let choice ← InPlace.lift (choose s (mem'.value now)); mem'.write s choice
          : InPlace τ α Unit).runOn y) := by
    refine paired_get ?_
    rw [reads s inside x y alike]
    exact paired_lift trivial fun choice _ => writes s inside choice x y alike
  cases m with
  | table t =>
    refine paired_lift trivial fun parts cut => ?_
    cases cut
    rw [runChunks_single, runChunks_single]
    exact forM_paired (steps fun s r => (Model.table t).greedyChoice goal s r) ready
  | flat f =>
    exact paired_lift trivial fun discount _ => forM_paired (steps fun s r => f.greedyChoice discount s r) ready

theorem policySweep_paired {t : Int} {policy : Policy α} (writes : ∀ s < m.stateCount, ∀ value x y, reached s x y →
      Paired (reached (s + 1)) Unrelated ((InPlace.update (mem.putValue s value)).runOn x)
        ((InPlace.update (mem'.putValue s value)).runOn y)) (ready : reached 0 x y) :
    Paired (reached m.stateCount) Unrelated ((mem.policySweep m goal t policy .serial).runOn x)
      ((mem'.policySweep m goal t policy .serial).runOn y) := by
  refine paired_lift trivial fun parts cut => ?_
  cases cut
  rw [runChunks_single, runChunks_single]
  refine forM_paired (fun s inside x y alike => paired_get ?_) ready
  rw [reads s inside x y alike]
  exact paired_lift trivial fun value _ => writes s inside value x y alike

end SweepMemory

end Passes

namespace Workspace

variable {α σ τ : Type} {ended : σ → τ → Prop} {w : Workspace σ α} {w' : Workspace τ α}

def SameJournal (w : Workspace σ α) (w' : Workspace τ α) : Prop := w.journal = w'.journal

def Matching (alike : σ → τ → Prop) (w : Workspace σ α) (w' : Workspace τ α) : Prop :=
  SameJournal w w' ∧ alike w.memory w'.memory

theorem onMemory_paired {c : InPlace σ α Unit} {d : InPlace τ α Unit} (same : SameJournal w w')
    (ran : Paired ended Unrelated (c.runOn w.memory) (d.runOn w'.memory)) :
    Paired (Matching ended) SameJournal ((onMemory c).runOn w) ((onMemory d).runOn w') := by
  change Paired _ _ ((c.runOn w.memory).1, { w with memory := (c.runOn w.memory).2 })
    ((d.runOn w'.memory).1, { w' with memory := (d.runOn w'.memory).2 })
  generalize c.runOn w.memory = here at ran ⊢
  generalize d.runOn w'.memory = there at ran ⊢
  cases ran with
  | ended alike => exact .ended ⟨same, alike⟩
  | failed _ => exact .failed same

theorem onJournal_paired (c : Journaled α Unit) (alike : Matching ended w w') :
    Paired (Matching ended) SameJournal ((onJournal c).runOn w) ((onJournal c).runOn w') := by
  obtain ⟨same, alike⟩ := alike
  change Paired _ _ ((c.runOn w.journal).1, { w with journal := (c.runOn w.journal).2 })
    ((c.runOn w'.journal).1, { w' with journal := (c.runOn w'.journal).2 })
  rw [show w.journal = w'.journal from same]
  rcases c.runOn w'.journal with ⟨_ | _, j⟩
  · exact .failed rfl
  · exact .ended ⟨rfl, alike⟩

end Workspace

structure StageMemory.Alike {α σ τ : Type} (mem : StageMemory σ α) (mem' : StageMemory τ α) (horizon n : Nat)
    (optimise : Bool) (reached : Nat → Nat → σ → τ → Prop) : Prop where
  reads : ∀ t < horizon, ∀ s < n, ∀ x y, reached t s x y → (mem.stage t).value x = (mem'.stage t).value y
  chosen : optimise = true → ∀ t < horizon, ∀ s < n, ∀ c x y, reached t s x y →
    Paired (reached t (s + 1)) Unrelated (((mem.stage t).write s c).runOn x) (((mem'.stage t).write s c).runOn y)
  followed : optimise = false → ∀ t < horizon, ∀ s < n, ∀ value x y, reached t s x y →
    Paired (reached t (s + 1)) Unrelated ((InPlace.update ((mem.stage t).putValue s value)).runOn x)
      ((InPlace.update ((mem'.stage t).putValue s value)).runOn y)
  rows : ∀ t < horizon, ∀ x y, reached t n x y → mem.row t x = mem'.row t y
  before : ∀ t x y, reached (t + 1) n x y → reached t 0 x y

namespace BackwardInduction

open Workspace

variable {α σ τ : Type} [Scalar α] {mem : StageMemory σ α} {mem' : StageMemory τ α} {m : Model α} {o : Objective α}
  {rule : Option (Policy α)} {horizon : Nat} {reached : Nat → Nat → σ → τ → Prop}
  (alike : mem.Alike mem' horizon m.stateCount rule.isNone reached)

include alike

theorem sweep_paired {t : Nat} (stage : t < horizon) {x : σ} {y : τ} (ready : reached t 0 x y) :
    Paired (reached t m.stateCount) Unrelated ((sweep mem m o rule t).runOn x) ((sweep mem' m o rule t).runOn y) := by
  cases rule with
  | none => exact SweepMemory.bellmanSweep_paired (alike.reads t stage) (alike.chosen rfl t stage) ready
  | some p =>
    exact paired_lift trivial fun q _ =>
      SweepMemory.policySweep_paired (alike.reads t stage) (alike.followed rfl t stage) ready

theorem stages_paired : ∀ t ≤ horizon, ∀ (w : Workspace σ α) (w' : Workspace τ α),
    Matching (reached t m.stateCount) w w' →
    Paired (Matching (reached 0 m.stateCount)) SameJournal ((stages mem m o rule t).runOn w)
      ((stages mem' m o rule t).runOn w') := by
  intro t
  induction t with
  | zero => exact fun _ w w' matching => .ended matching
  | succ t ih =>
    rintro stage w w' ⟨same, here⟩
    have swept := sweep_paired (o := o) alike stage (alike.before t _ _ here)
    refine (onMemory_paired same swept).bind fun w w' matching => paired_get ?_
    rw [alike.rows t stage _ _ matching.2]
    exact (onJournal_paired _ matching).bind (ih (Nat.le_of_succ_le stage))

theorem run_paired {terminal : TerminalValue α} (settings : Settings α) {x : σ} {y : τ}
    (ready : ∀ last, terminal.vector m.stateCount = .ok last →
      reached horizon m.stateCount (mem.putTerminal last x) (mem'.putTerminal last y)) (j : Journal α) :
    Paired (Matching (reached 0 m.stateCount)) SameJournal
      ((run mem m o horizon rule terminal settings).runOn ⟨x, j⟩)
      ((run mem' m o horizon rule terminal settings).runOn ⟨y, j⟩) := by
  have start : Matching (fun x' y' => x = x' ∧ y = y') ⟨x, j⟩ ⟨y, j⟩ := ⟨rfl, rfl, rfl⟩
  refine (onJournal_paired _ start).bind ?_
  rintro ⟨x', k⟩ ⟨y', k'⟩ ⟨same, here⟩
  obtain ⟨rfl, rfl⟩ : x = x' ∧ y = y' := here
  refine paired_lift same fun last known => ?_
  have placed : Paired (reached horizon m.stateCount) Unrelated
      ((InPlace.update fun s => .ok (mem.putTerminal last s) : InPlace σ α Unit).runOn x)
      ((InPlace.update fun s => .ok (mem'.putTerminal last s) : InPlace τ α Unit).runOn y) := .ended (ready last known)
  refine (onMemory_paired same placed).bind fun w w' matching => ?_
  exact (stages_paired alike horizon le_rfl w w' matching).bind fun w w' matching => onJournal_paired _ matching

end BackwardInduction

end MarkovDecision
