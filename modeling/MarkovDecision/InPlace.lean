import MarkovDecision.Failure

namespace MarkovDecision

-- Computations on a memory that survives failures: what was written before a failure stays written.
abbrev InPlace (σ α β : Type) := ExceptT (Failure α) (StateM σ) β

namespace InPlace

variable {σ τ α β : Type}

def lift (x : Outcome α β) : InPlace σ α β := ExceptT.mk fun s => (x, s)

def update (f : σ → Outcome α σ) : InPlace σ α Unit := ExceptT.mk fun s =>
  match f s with
  | .ok s' => (.ok (), s')
  | .error e => (.error e, s)

def attempt (x : InPlace σ α Unit) : InPlace σ α (Option (Failure α)) := ExceptT.mk fun s =>
  match (x.run).run s with
  | (.ok _, s') => (.ok none, s')
  | (.error e, s') => (.ok (some e), s')

def runOn (x : InPlace σ α β) (s : σ) : Outcome α β × σ := (x.run).run s

def within (get : τ → σ) (put : σ → τ → τ) (x : InPlace σ α β) : InPlace τ α β :=
  ExceptT.mk fun t =>
    let (outcome, s) := x.runOn (get t)
    (outcome, put s t)

def result (x : InPlace σ α Unit) (s : σ) : Outcome α σ :=
  match x.runOn s with
  | (.ok _, s') => .ok s'
  | (.error e, _) => .error e

end InPlace

end MarkovDecision
