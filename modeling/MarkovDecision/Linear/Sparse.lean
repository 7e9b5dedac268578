import MarkovDecision.Number.Scalar
import MarkovDecision.Tensor

namespace MarkovDecision

variable {α : Type} [Scalar α]

-- Columns ascend, each of them once; what is added more than once is summed in the order of adding.
-- A stored entry may be zero until the zeros are dropped.
abbrev SparseRow (α : Type) := List (Nat × α)

namespace SparseRow

def add (column : Nat) (x : α) : SparseRow α → SparseRow α
  | [] => [(column, x)]
  | (c, y) :: rest =>
    if column < c then (column, x) :: (c, y) :: rest
    else if column == c then (c, y + x) :: rest
    else (c, y) :: add column x rest

def ofEntries (entries : List (Nat × α)) : SparseRow α :=
  entries.foldl (fun row (c, x) => add c x row) []

def get (row : SparseRow α) (column : Nat) : α :=
  match row.find? (fun e => e.1 == column) with
  | some (_, x) => x
  | none => Scalar.zero

def dot (row : SparseRow α) (v : Array α) : α :=
  row.foldl (fun total (c, x) => total + x * v.getD c Scalar.zero) Scalar.zero

def dropZeros (row : SparseRow α) : SparseRow α := row.filter fun (_, x) => !Scalar.eq x Scalar.zero

end SparseRow

structure SparseMatrix (α : Type) where
  width : Nat
  rows : List (SparseRow α)

namespace SparseMatrix

def height (m : SparseMatrix α) : Nat := m.rows.length

def dropZeros (m : SparseMatrix α) : SparseMatrix α := { m with rows := m.rows.map SparseRow.dropZeros }

def apply (m : SparseMatrix α) (v : Array α) : List α := m.rows.map fun row => row.dot v

def applyTo? (m : SparseMatrix α) (t : Tensor α) : Option (Tensor α) :=
  match t.shape with
  | [n] => if n == m.width then some (.ofVector (m.apply t.cells).toArray) else none
  | [n, k] =>
    let column (j : Nat) : Array α :=
      ((List.range n).map fun i => t.cells.getD (i * k + j) Scalar.zero).toArray
    let columns := (List.range k).map column
    if n == m.width then
      some ⟨[m.height, k], (m.rows.flatMap fun row => columns.map row.dot).toArray⟩
    else none
  | _ => none

def rowOf? (width : Nat) (entries : List (Option Int × α)) : Option (SparseRow α) :=
  (entries.mapM fun (e : Option Int × α) => do
    let c ← e.1
    if 0 ≤ c && c < (width : Int) then some (c.toNat, e.2) else none).map SparseRow.ofEntries

def ofEntries? (width : Nat) (rows : List (List (Option Int × α))) : Option (SparseMatrix α) :=
  (rows.mapM (rowOf? width)).map fun rows => ⟨width, rows⟩

end SparseMatrix

end MarkovDecision
