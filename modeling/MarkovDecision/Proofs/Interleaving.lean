import MarkovDecision.Proofs.Sweep

namespace MarkovDecision

-- Which worker is next is left open. A worker whose step fails gives up the states it has left.
structure Crew (σ : Type) where
  left : List (List Nat)
  memory : σ

namespace Crew

variable {α σ : Type}

def Finished (c : Crew σ) : Prop := ∀ part ∈ c.left, part = []

inductive Step (step : Nat → InPlace σ α Unit) : Crew σ → Nat → Crew σ → Prop
  | handles {before after : List (List Nat)} {rest : List Nat} {s : Nat} {x y : σ}
      (done : (step s).runOn x = (.ok (), y)) :
      Step step ⟨before ++ (s :: rest) :: after, x⟩ s ⟨before ++ rest :: after, y⟩
  | fails {before after : List (List Nat)} {rest : List Nat} {s : Nat} {x y : σ} {e : Failure α}
      (failed : (step s).runOn x = (.error e, y)) :
      Step step ⟨before ++ (s :: rest) :: after, x⟩ s ⟨before ++ [] :: after, y⟩

inductive Runs (step : Nat → InPlace σ α Unit) : Crew σ → List Nat → Crew σ → Prop
  | none (c : Crew σ) : Runs step c [] c
  | next {c d e : Crew σ} {s : Nat} {order : List Nat} (first : Step step c s d) (later : Runs step d order e) :
      Runs step c (s :: order) e

variable {step : Nat → InPlace σ α Unit} {c d e : Crew σ} {order rest : List Nat}

theorem Runs.append (ran : Runs step c order d) (further : Runs step d rest e) : Runs step c (order ++ rest) e := by
  induction ran with
  | none => exact further
  | next first _ ih => exact .next first (ih further)

theorem step_exists (step : Nat → InPlace σ α Unit) (busy : ¬c.Finished) : ∃ s d, Step step c s d := by
  obtain ⟨left, x⟩ := c
  unfold Finished at busy
  push Not at busy
  obtain ⟨part, member, some⟩ := busy
  obtain ⟨before, after, rfl⟩ := List.append_of_mem member
  obtain ⟨s, rest, rfl⟩ := List.exists_cons_of_ne_nil some
  rcases ran : (step s).runOn x with ⟨_ | ⟨⟩, y⟩
  · exact ⟨s, _, .fails ran⟩
  · exact ⟨s, _, .handles ran⟩

theorem Step.shorter {s : Nat} (moved : Step step c s d) : d.left.flatten.length < c.left.flatten.length := by
  cases moved <;> simp only [List.flatten_append, List.flatten_cons, List.length_append, List.length_cons] <;> simp

theorem finishes (step : Nat → InPlace σ α Unit) (c : Crew σ) : ∃ order d, Runs step c order d ∧ d.Finished := by
  induction size : c.left.flatten.length using Nat.strong_induction_on generalizing c with
  | _ k ih =>
    by_cases finished : c.Finished
    · exact ⟨[], c, .none c, finished⟩
    · obtain ⟨s, d, first⟩ := step_exists step finished
      obtain ⟨order, e, later, ended⟩ := ih _ (size ▸ first.shorter) d rfl
      exact ⟨s :: order, e, .next first later, ended⟩

section Chunks

theorem forM_runs (step : Nat → InPlace σ α Unit) (before after : List (List Nat)) (part : List Nat) (x : σ) :
    ∃ order, Runs step ⟨before ++ part :: after, x⟩ order ⟨before ++ [] :: after, ((part.forM step).runOn x).2⟩ := by
  induction part generalizing x with
  | nil => exact ⟨[], .none _⟩
  | cons s rest ih =>
    have unfolded : ((s :: rest).forM step).runOn x = _ := InPlace.runOn_bind (step s) (fun _ => rest.forM step) x
    rcases ran : (step s).runOn x with ⟨e | ⟨⟩, y⟩
    · rw [ran] at unfolded
      rw [unfolded]
      exact ⟨[s], .next (.fails ran) (.none _)⟩
    · rw [ran] at unfolded
      rw [unfolded]
      obtain ⟨order, later⟩ := ih y
      exact ⟨s :: order, .next (.handles ran) later⟩

theorem attempts_runs (step : Nat → InPlace σ α Unit) (before parts : List (List Nat)) (x : σ) :
    ∃ failures y, (parts.mapM fun part => InPlace.attempt (part.forM step)).runOn x = (.ok failures, y) ∧
      ∃ order, Runs step ⟨before ++ parts, x⟩ order ⟨before ++ parts.map fun _ => [], y⟩ := by
  induction parts generalizing before x with
  | nil => exact ⟨[], x, rfl, [], .none _⟩
  | cons part rest ih =>
    obtain ⟨failure, first⟩ : ∃ failure, (InPlace.attempt (part.forM step)).runOn x
        = (.ok failure, ((part.forM step).runOn x).2) := ⟨_, InPlace.attempt_runOn (part.forM step) x⟩
    obtain ⟨order, alone⟩ := forM_runs step before rest part x
    obtain ⟨failures, y, later, order', others⟩ := ih (before ++ [[]]) ((part.forM step).runOn x).2
    simp only [List.append_assoc, List.singleton_append] at others
    refine ⟨failure :: failures, y, ?_, order ++ order', alone.append others⟩
    rw [List.mapM_cons, InPlace.runOn_bind_ok first, InPlace.runOn_bind_ok later]
    rfl

-- The pass chunk by chunk is the run in which every worker goes on as long as it can.
theorem runChunks_runs (step : Nat → InPlace σ α Unit) (parts : List (List Nat)) (x : σ) : ∃ order,
    Runs step ⟨parts, x⟩ order ⟨parts.map fun _ => [], ((runChunks step parts).runOn x).2⟩ := by
  obtain ⟨failures, y, tried, order, ran⟩ := attempts_runs step [] parts x
  have memory : ((runChunks step parts).runOn x).2 = y := by
    rw [runChunks, InPlace.runOn_bind_ok tried]
    split <;> rfl
  rw [memory]
  exact ⟨order, ran⟩

end Chunks

section Serial

variable {next : Nat → σ → σ} {valid : σ → Prop} {states : List Nat}

theorem Step.serial {s : Nat} (moved : Step step c s d) (steps : ∀ s ∈ states, ∀ x, valid x →
      (step s).runOn x = (.ok (), next s x) ∧ valid (next s x))
    (listed : ∀ s ∈ c.left.flatten, s ∈ states) (ready : valid c.memory) :
    d.memory = next s c.memory ∧ valid d.memory ∧ c.left.flatten.Perm (s :: d.left.flatten) := by
  have here : s ∈ c.left.flatten := by cases moved <;> simp
  obtain ⟨known, after⟩ := steps s (listed s here) c.memory ready
  cases moved with
  | handles done =>
    cases done.symm.trans known
    refine ⟨rfl, after, ?_⟩
    simp only [List.flatten_append, List.flatten_cons, List.cons_append]
    exact List.perm_middle
  | fails failed => cases failed.symm.trans known

theorem Runs.serial (ran : Runs step c order d) (steps : ∀ s ∈ states, ∀ x, valid x →
      (step s).runOn x = (.ok (), next s x) ∧ valid (next s x))
    (listed : ∀ s ∈ c.left.flatten, s ∈ states) (ready : valid c.memory) :
    d.memory = order.foldl (fun x s => next s x) c.memory ∧ valid d.memory ∧
      c.left.flatten.Perm (order ++ d.left.flatten) := by
  induction ran with
  | none c => exact ⟨rfl, ready, List.Perm.refl _⟩
  | next first _ ih =>
    obtain ⟨moved, after, perm⟩ := first.serial steps listed ready
    obtain ⟨memory, final, later⟩ :=
      ih (fun s member => listed s (perm.mem_iff.mpr (List.mem_cons_of_mem _ member))) after
    exact ⟨by rw [memory, moved, List.foldl_cons], final, perm.trans (later.cons _)⟩

structure Agrees (step : Nat → InPlace σ α Unit) (parts : List (List Nat)) (states : List Nat) (start last : σ)
    (kept : σ → Prop) : Prop where
  serial : (states.forM step).runOn start = (.ok (), last)
  chunked : (runChunks step parts).runOn start = (.ok (), last)
  kept : ∀ order c, Runs step ⟨parts, start⟩ order c → kept c.memory
  finishes : ∀ order c, Runs step ⟨parts, start⟩ order c → ∃ rest d, Runs step c rest d ∧ d.Finished
  same : ∀ order c, Runs step ⟨parts, start⟩ order c → c.Finished → order.Perm states ∧ c.memory = last

theorem agrees {parts : List (List Nat)} {kept : σ → Prop} (cover : parts.flatten.Perm states)
    (steps : ∀ s ∈ states, ∀ x, valid x → (step s).runOn x = (.ok (), next s x) ∧ valid (next s x))
    (commute : ∀ s ∈ states, ∀ t ∈ states, s ≠ t → ∀ x, next t (next s x) = next s (next t x))
    (keeps : ∀ x, valid x → kept x) {start : σ} (ready : valid start) :
    Agrees step parts states start (states.foldl (fun x s => next s x) start) kept := by
  have listed : ∀ s ∈ (⟨parts, start⟩ : Crew σ).left.flatten, s ∈ states := fun s member => cover.mem_iff.mp member
  have reordered {order : List Nat} (perm : order.Perm states) :
      order.foldl (fun x s => next s x) start = states.foldl (fun x s => next s x) start := by
    refine perm.foldl_eq' (fun s inOrder t inOrder' x => ?_) start
    by_cases same : s = t
    · rw [same]
    · exact commute s (perm.mem_iff.mp inOrder) t (perm.mem_iff.mp inOrder') same x
  refine ⟨(forM_steps states steps ready).1, ?_, fun order c ran => keeps _ (ran.serial steps listed ready).2.1,
    fun order c _ => finishes step c, fun order c ran finished => ?_⟩
  · rw [runChunks_steps (fun s member => steps s (listed s member)) ready, reordered cover]
  · obtain ⟨memory, _, perm⟩ := ran.serial steps listed ready
    have empty : c.left.flatten = [] := List.flatten_eq_nil_iff.mpr finished
    rw [empty, List.append_nil] at perm
    have whole := perm.symm.trans cover
    exact ⟨whole, memory.trans (reordered whole)⟩

-- A pass that comes to one memory, however the work is divided and in whatever order the steps are taken.
def Settles (n : Nat) (pass : Schedule → InPlace σ α Unit) (step : Nat → InPlace σ α Unit) (start : σ)
    (kept : σ → Prop) : Prop :=
  ∃ last, (∀ schedule parts, (schedule.chunks n : Outcome α _) = .ok parts →
      parts.flatten = List.range n ∧ (pass schedule).runOn start = (.ok (), last)) ∧
    ∀ parts : List (List Nat), parts.flatten.Perm (List.range n) →
      Agrees step parts (List.range n) start last kept

end Serial

end Crew

section Verdicts

variable {α σ β : Type} {step : Nat → InPlace σ α Unit} {choice : Nat → Outcome α β} {next : Nat → β → σ → σ}
  {valid : σ → Prop} {states : List Nat} {x : σ}

-- Steps that write what was chosen, or fail as the choice fails, whatever was written before.
structure Judged (step : Nat → InPlace σ α Unit) (choice : Nat → Outcome α β) (next : Nat → β → σ → σ)
    (valid : σ → Prop) (states : List Nat) : Prop where
  writes : ∀ s ∈ states, ∀ c, choice s = .ok c → ∀ x, valid x →
    (step s).runOn x = (.ok (), next s c x) ∧ valid (next s c x)
  fails : ∀ s ∈ states, ∀ e, choice s = .error e → ∀ x, valid x → (step s).runOn x = (.error e, x)

theorem Judged.part {states' : List Nat} (judged : Judged step choice next valid states)
    (part : ∀ s ∈ states', s ∈ states) : Judged step choice next valid states' :=
  ⟨fun s member => judged.writes s (part s member), fun s member => judged.fails s (part s member)⟩

def failure? (x : Outcome α β) : Option (Failure α) :=
  match x with
  | .ok _ => none
  | .error e => some e

theorem Judged.forM (judged : Judged step choice next valid states) (ready : valid x) :
    ∃ y, valid y ∧ (states.forM step).runOn x = (match states.findSome? fun s => failure? (choice s) with
      | none => .ok ()
      | some e => .error e, y) := by
  induction states generalizing x with
  | nil => exact ⟨x, ready, rfl⟩
  | cons s rest ih =>
    have unfolded : ((s :: rest).forM step).runOn x = _ := InPlace.runOn_bind (step s) (fun _ => rest.forM step) x
    rw [unfolded, List.findSome?_cons]
    cases known : choice s with
    | error e => exact ⟨x, ready, by rw [judged.fails s List.mem_cons_self e known x ready]; rfl⟩
    | ok c =>
      obtain ⟨done, after⟩ := judged.writes s List.mem_cons_self c known x ready
      rw [done]
      exact ih (judged.part fun t member => List.mem_cons_of_mem s member) after

theorem Judged.attempts {parts : List (List Nat)} (judged : Judged step choice next valid parts.flatten)
    (ready : valid x) : ∃ y, (parts.mapM fun part => InPlace.attempt (part.forM step)).runOn x
      = (.ok (parts.map fun part => part.findSome? fun s => failure? (choice s)), y) := by
  induction parts generalizing x with
  | nil => exact ⟨x, rfl⟩
  | cons part rest ih =>
    rw [List.flatten_cons] at judged
    have here : Judged step choice next valid part := judged.part fun s member => List.mem_append_left _ member
    obtain ⟨y, after, ran⟩ := here.forM ready
    have tried : (InPlace.attempt (part.forM step)).runOn x
        = (.ok (part.findSome? fun s => failure? (choice s)), y) := by
      rw [InPlace.attempt_runOn, ran]
      cases part.findSome? fun s => failure? (choice s) <;> rfl
    obtain ⟨z, later⟩ := ih (judged.part fun s member => List.mem_append_right _ member) after
    refine ⟨z, ?_⟩
    rw [List.mapM_cons, InPlace.runOn_bind_ok tried, InPlace.runOn_bind_ok later]
    rfl

theorem findSome?_parts (f : Nat → Option β) (parts : List (List Nat)) :
    (parts.map fun part => part.findSome? f).findSome? id = parts.flatten.findSome? f := by
  induction parts with
  | nil => rfl
  | cons part rest ih =>
    rw [List.map_cons, List.findSome?_cons, List.flatten_cons, List.findSome?_append, ← ih]
    cases part.findSome? f <;> rfl

-- The result of a pass does not tell how the states were cut into chunks, whether a step fails or not.
theorem Judged.runChunks_result {parts parts' : List (List Nat)} (judged : Judged step choice next valid states)
    (cover : parts.flatten = states) (cover' : parts'.flatten = states) (ready : valid x) :
    (runChunks step parts).result x = (runChunks step parts').result x := by
  cases failure : states.findSome? fun s => failure? (choice s) with
  | none =>
    -- no state fails, so each writes what it chooses
    let write (s : Nat) (x : σ) : σ := match choice s with
      | .ok c => next s c x
      | .error _ => x
    have writes : ∀ s ∈ states, ∀ x, valid x → (step s).runOn x = (.ok (), write s x) ∧ valid (write s x) := by
      intro s member x ready
      have passed := List.findSome?_eq_none_iff.mp failure s member
      cases known : choice s with
      | error e =>
        rw [known] at passed
        cases passed
      | ok c =>
        have same : write s x = next s c x := by simp [write, known]
        rw [same]
        exact judged.writes s member c known x ready
    have passes (parts : List (List Nat)) (cover : parts.flatten = states) :
        (runChunks step parts).runOn x = (.ok (), states.foldl (fun x s => write s x) x) := by
      subst cover
      exact runChunks_steps writes ready
    rw [InPlace.result, InPlace.result, passes parts cover, passes parts' cover']
  | some e =>
    have refused (parts : List (List Nat)) (cover : parts.flatten = states) :
        ∃ y, (runChunks step parts).runOn x = (.error e, y) := by
      subst cover
      obtain ⟨y, tried⟩ := judged.attempts ready
      rw [runChunks, InPlace.runOn_bind_ok tried, findSome?_parts, failure]
      exact ⟨y, rfl⟩
    obtain ⟨_, first⟩ := refused parts cover
    obtain ⟨_, second⟩ := refused parts' cover'
    rw [InPlace.result, InPlace.result, first, second]

end Verdicts

section Steps

variable {α σ : Type} {mem : SweepMemory σ α} {n : Nat} {v : Array α} {valid : σ → Prop}
  {setValue : Nat → α → σ → σ} {setAction : Nat → Int → σ → σ}

theorem SweepMemory.Keeps.judged {β : Type} (keeps : mem.Keeps n v valid setValue setAction)
    (find : Nat → Reader α → Outcome α β) (put : Nat → β → InPlace σ α Unit) {next : Nat → β → σ → σ}
    (writes : ∀ s < n, ∀ c x, valid x → (put s c).runOn x = (.ok (), next s c x) ∧ valid (next s c x)) :
    Judged (fun s => do
      let now ← get
      let c ← InPlace.lift (find s (mem.value now))
      put s c) (fun s => find s (Reader.ofArray v)) next valid (List.range n) := by
  have found {s : Nat} {x : σ} (ready : valid x) : (do
      let now ← get
      let c ← InPlace.lift (find s (mem.value now))
      put s c : InPlace σ α Unit).runOn x
      = (InPlace.lift (find s (Reader.ofArray v)) >>= put s : InPlace σ α Unit).runOn x := by
    rw [InPlace.runOn_bind_ok (InPlace.runOn_get x), keeps.reads x ready]
  refine ⟨fun s member c known x ready => ?_, fun s member e known x ready => ?_⟩
  · rw [found ready, known]
    exact writes s (List.mem_range.mp member) c x ready
  · rw [found ready, known]
    rfl

end Steps

end MarkovDecision
