import MarkovDecision.Number.Power

namespace MarkovDecision

structure Affine where
  constant : Rat
  coefficients : List Rat

namespace Affine

def coefficient (f : Affine) (k : Nat) : Rat := f.coefficients.getD k 0

def addScaled (f : Affine) (factor : Rat) (g : Affine) : Affine :=
  { constant := f.constant + factor * g.constant
    coefficients := List.zipWith (fun x y => x + factor * y) f.coefficients g.coefficients }

end Affine

structure Dictionary where
  nonbasic : List Nat
  basic : List Nat
  rows : List Affine
  -- to be maximised
  objective : Affine

inductive DictionaryState where
  | optimal
  | infeasible
  | dualInfeasible
  | pivot (row column : Nat)

namespace Dictionary

def solvedFor (row : Affine) (k : Nat) : Affine :=
  let c := row.coefficient k
  { constant := -row.constant / c
    coefficients := row.coefficients.zipIdx.map fun (x, j) => if j == k then 1 / c else -x / c }

def substitute (f entering : Affine) (k : Nat) : Affine :=
  let factor := f.coefficient k
  let rest : Affine := { f with coefficients := f.coefficients.set k 0 }
  rest.addScaled factor entering

def exchange (d : Dictionary) (r k : Nat) : Dictionary :=
  match d.rows[r]? with
  | none => d
  | some row =>
    let entering := solvedFor row k
    { nonbasic := d.nonbasic.set k (d.basic.getD r 0)
      basic := d.basic.set r (d.nonbasic.getD k 0)
      rows := d.rows.zipIdx.map fun (f, i) => if i == r then entering else substitute f entering k
      objective := substitute d.objective entering k }

def first? {β : Type} (before : β → β → Bool) (entries : List β) : Option β :=
  entries.foldl (fun best e =>
    match best with
    | none => some e
    | some b => if before e b then some e else best) none

def leastVariable (entries : List (Nat × Nat)) : Option (Nat × Nat) :=
  first? (fun e b => decide (e.1 < b.1)) entries

def negativeRows (d : Dictionary) : List (Nat × Nat) :=
  (d.basic.zip (d.rows.zipIdx)).filterMap fun (v, row, r) =>
    if row.constant < 0 then some (v, r) else none

def improvingColumns (d : Dictionary) : List (Nat × Nat) :=
  (d.nonbasic.zip (d.objective.coefficients.zipIdx)).filterMap fun (v, x, k) =>
    if 0 < x then some (v, k) else none

def mendingColumns (d : Dictionary) (r : Nat) : List (Nat × Nat) :=
  match d.rows[r]? with
  | none => []
  | some row => (d.nonbasic.zip (row.coefficients.zipIdx)).filterMap fun (v, x, k) =>
      if 0 < x then some (v, k) else none

def limitingRows (d : Dictionary) (k : Nat) : List (Nat × Nat) :=
  (d.basic.zip (d.rows.zipIdx)).filterMap fun (v, row, r) =>
    if row.coefficient k < 0 then some (v, r) else none

def mend (d : Dictionary) (r : Nat) : DictionaryState :=
  match leastVariable (d.mendingColumns r) with
  | some (_, k) => .pivot r k
  | none => .infeasible

def improve (d : Dictionary) (k : Nat) : DictionaryState :=
  match leastVariable (d.limitingRows k) with
  | some (_, r) => .pivot r k
  | none => .dualInfeasible

def crissCross (d : Dictionary) : DictionaryState :=
  match leastVariable d.negativeRows, leastVariable d.improvingColumns with
  | none, none => .optimal
  | some (_, r), none => d.mend r
  | none, some (_, k) => d.improve k
  | some (v, r), some (w, k) => if v < w then d.mend r else d.improve k

def constantOf (d : Dictionary) (r : Nat) : Rat := ((d.rows[r]?).map Affine.constant).getD 0

def entry (d : Dictionary) (r k : Nat) : Rat := ((d.rows[r]?).map (·.coefficient k)).getD 0

def price (d : Dictionary) (k : Nat) : Rat :=
  let gain := d.objective.coefficient k
  if gain < 0 then -gain else 0

def mendCheaply (d : Dictionary) (r : Nat) : DictionaryState :=
  let offers := (d.mendingColumns r).map fun (_, k) => (d.price k / d.entry r k, d.entry r k, k)
  match first? (fun (p, x, _) (q, y, _) => decide (p < q) || (p == q && decide (y < x))) offers with
  | some (_, _, k) => .pivot r k
  | none => .infeasible

def improveFully (d : Dictionary) (k : Nat) : DictionaryState :=
  let limits := (d.limitingRows k).map fun (_, r) => (-d.constantOf r / d.entry r k, d.entry r k, r)
  match first? (fun (p, x, _) (q, y, _) => decide (p < q) || (p == q && decide (x < y))) limits with
  | some (_, _, r) => .pivot r k
  | none => .dualInfeasible

def steepest (d : Dictionary) : DictionaryState :=
  match first? (fun (_, r) (_, q) => decide (d.constantOf r < d.constantOf q)) d.negativeRows with
  | some (_, r) => d.mendCheaply r
  | none =>
    match first? (fun (_, k) (_, l) =>
        decide (d.objective.coefficient l < d.objective.coefficient k)) d.improvingColumns with
    | some (_, k) => d.improveFully k
    | none => .optimal

def run (rule : Dictionary → DictionaryState) : Nat → Dictionary → Dictionary × DictionaryState
  | 0, d => (d, rule d)
  | fuel + 1, d =>
    match rule d with
    | .pivot r k => run rule fuel (d.exchange r k)
    | s => (d, s)

def size (d : Dictionary) : Nat := d.basic.length + d.nonbasic.length

-- The steepest rule is fast but may turn in circles. The criss-cross rule looks at indices alone,
-- so that no dictionary comes twice, and there are no more of them than sets of basic variables.
def finish (d : Dictionary) : Dictionary × DictionaryState :=
  match run steepest (4 * d.size) d with
  | (d, .pivot _ _) => run crissCross (pow2 d.size) d
  | done => done

def valueOf (d : Dictionary) (v : Nat) : Rat :=
  match (d.basic.zip d.rows).find? (fun e => e.1 == v) with
  | some (_, row) => row.constant
  | none => 0

def costOf (d : Dictionary) (v : Nat) : Rat :=
  match (d.nonbasic.zip d.objective.coefficients).find? (fun e => e.1 == v) with
  | some (_, x) => -x
  | none => 0

def feasibility (d : Dictionary) : Dictionary :=
  { d with objective := ⟨0, d.objective.coefficients.map fun _ => 0⟩ }

end Dictionary

end MarkovDecision
