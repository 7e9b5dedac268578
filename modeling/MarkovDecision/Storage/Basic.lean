import MarkovDecision.Failure
import MarkovDecision.Literal.Tensor

namespace MarkovDecision

variable {α : Type}

inductive Buffer (α : Type) where
  | reals (cells : Array α)
  | wholes (cells : Array Int)

structure Storage (α : Type) where
  buffers : Array (Buffer α)

structure View where
  buffer : Nat
  offset : Nat
  shape : List Nat

namespace Buffer

def isWhole : Buffer α → Bool
  | reals _ => false
  | wholes _ => true

def cell? [Scalar α] (b : Buffer α) (i : Nat) : Option α :=
  match b with
  | reals cells => cells[i]?
  | wholes cells => cells[i]?.map Scalar.ofInt

def put [Scalar α] (b : Buffer α) (i : Nat) (x : α) (n : Int) : Buffer α :=
  match b with
  | reals cells => reals (cells.setIfInBounds i x)
  | wholes cells => wholes (cells.setIfInBounds i n)

end Buffer

namespace View

def size (v : View) : Nat := Tensor.volume v.shape

def isVector (v : View) : Bool := v.shape.length == 1

def length? (v : View) : Option Nat := v.shape.head?

def row? (v : View) (i : Int) : Option View :=
  match v.shape with
  | n :: rest => (indexFrom n i).map fun k => ⟨v.buffer, v.offset + k * Tensor.volume rest, rest⟩
  | [] => none

end View

namespace Storage

def empty : Storage α := ⟨#[]⟩

def allocate (m : Storage α) (b : Buffer α) (shape : List Nat) : View × Storage α :=
  (⟨m.buffers.size, 0, shape⟩, ⟨m.buffers.push b⟩)

def addReals (m : Storage α) (t : Tensor α) : View × Storage α :=
  m.allocate (.reals t.cells) t.shape

def addWholes (m : Storage α) (t : Tensor Int) : View × Storage α :=
  m.allocate (.wholes t.cells) t.shape

def buffer (m : Storage α) (v : View) : Buffer α := m.buffers.getD v.buffer (.reals #[])

def isWhole (m : Storage α) (v : View) : Bool := (m.buffer v).isWhole

variable [Scalar α]

def reals (m : Storage α) (v : View) : Tensor α :=
  match m.buffer v with
  | .reals cells => ⟨v.shape, cells.extract v.offset (v.offset + v.size)⟩
  | .wholes cells => ⟨v.shape, (cells.extract v.offset (v.offset + v.size)).map Scalar.ofInt⟩

-- A real that goes into a whole cell without a check: what fits no word becomes the least word.
def wordOf (x : α) : Int :=
  match Scalar.truncate x with
  | some n => if Literal.inWord n then n else Literal.leastWord
  | none => Literal.leastWord

def wholes (m : Storage α) (v : View) : Tensor Int :=
  match m.buffer v with
  | .reals cells => ⟨v.shape, (cells.extract v.offset (v.offset + v.size)).map wordOf⟩
  | .wholes cells => ⟨v.shape, cells.extract v.offset (v.offset + v.size)⟩

def read (m : Storage α) (v : View) (i : Int) : Outcome α α :=
  match v.shape with
  | [n] =>
    match (indexFrom n i).bind fun k => (m.buffer v).cell? (v.offset + k) with
    | some x => .ok x
    | none => .error .index
  | [] => .error .index
  | n :: _ => if (indexFrom n i).isSome then .error .invalidInput else .error .index

def putCell (m : Storage α) (v : View) (k : Nat) (x : α) (n : Int) : Storage α :=
  ⟨m.buffers.modify v.buffer fun b => b.put (v.offset + k) x n⟩

-- A real into one cell of a vector. A whole cell takes the integer part and refuses what has none.
def write (m : Storage α) (v : View) (k : Nat) (x : α) : Outcome α (Storage α) :=
  match v.shape with
  | [n] =>
    if k < n then
      if m.isWhole v then
        match Scalar.truncate x with
        | some i => if Literal.inWord i then .ok (m.putCell v k x i) else .error .invalidInput
        | none => .error .invalidInput
      else .ok (m.putCell v k x 0)
    else .error .index
  | [] => .error .index
  -- one number for a whole row
  | n :: _ =>
    if k < n then
      match v.row? k with
      | some row => .ok ((List.range row.size).foldl (fun m (j : Nat) => m.putCell row j x (wordOf x)) m)
      | none => .error .index
    else .error .index

def writeWhole (m : Storage α) (v : View) (k : Nat) (n : Int) : Outcome α (Storage α) :=
  if m.isWhole v then
    if v.isVector then
      if k < v.size then .ok (m.putCell v k Scalar.zero n) else .error .index
    else m.write v k (Scalar.ofInt n)
  else m.write v k (Scalar.ofInt n)

def store (m : Storage α) (v : View) (k : Nat) (x : α) : Storage α :=
  if k < v.size then m.putCell v k x (wordOf x) else m

def storeWhole (m : Storage α) (v : View) (k : Nat) (n : Int) : Storage α :=
  if k < v.size then m.putCell v k (Scalar.ofInt n) n else m

def fill (m : Storage α) (v : View) (xs : List α) : Storage α :=
  xs.zipIdx.foldl (fun m (x, k) => m.store v k x) m

end Storage

end MarkovDecision
