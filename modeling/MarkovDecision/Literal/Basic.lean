import MarkovDecision.Number.Scalar

namespace MarkovDecision

inductive Literal where
  | null
  | bool (b : Bool)
  | int (n : Int)
  | real (x : Float)
  | text (s : String)
  | list (items : List Literal)
  | record (fields : List (String × Literal))
  deriving Inhabited

-- Whole numbers and reals stay apart, since a horizon of `3` is accepted and one of `3.0` is not,
-- and since messages repeat a number as it was written.
inductive Quantity (α : Type) where
  | whole (n : Int)
  | real (x : α)

namespace Quantity

variable {α : Type} [Scalar α]

def value : Quantity α → α
  | .whole n => Scalar.ofInt n
  | .real x => x

-- A whole number too large for the number type has no value there.
def value? (q : Quantity α) : Option α :=
  match q with
  | .whole n =>
    let x : α := Scalar.ofInt n
    if Scalar.eq (Scalar.abs x) Scalar.infinity then none else some x
  | .real x => some x

-- Whole numbers stay whole; with a real among them the result is real.
def combine (wholes : Int → Int → Int) (reals : α → α → α) : Quantity α → Quantity α → Quantity α
  | .whole m, .whole n => .whole (wholes m n)
  | p, q => .real (reals p.value q.value)

def add : Quantity α → Quantity α → Quantity α := combine (· + ·) (· + ·)

def mul : Quantity α → Quantity α → Quantity α := combine (· * ·) (· * ·)

def neg : Quantity α → Quantity α
  | .whole n => .whole (-n)
  | .real x => .real (-x)

end Quantity

namespace Literal

def typeName : Literal → String
  | .null => "NoneType"
  | .bool _ => "bool"
  | .int _ => "int"
  | .real _ => "float"
  | .text _ => "str"
  | .list _ => "list"
  | .record _ => "dict"

def quantity? : Literal → Option (Quantity Float)
  | .bool b => some (.whole (if b then 1 else 0))
  | .int n => some (.whole n)
  | .real x => some (.real x)
  | _ => none

def whole? : Literal → Option Int
  | .bool b => some (if b then 1 else 0)
  | .int n => some n
  | _ => none

def truthy : Literal → Bool
  | .null => false
  | .bool b => b
  | .int n => n != 0
  | .real x => !(x == 0)
  | .text s => s != ""
  | .list items => !items.isEmpty
  | .record fields => !fields.isEmpty

def equalsInt (l : Literal) (n : Int) : Bool :=
  match l with
  | .bool b => n == (if b then 1 else 0)
  | .int m => m == n
  | .real x => truncateFloat x == some n && x == Float.ofInt n
  | _ => false

def sameLabel : Literal → Literal → Bool
  | .text s, .text t => s == t
  | .null, .null => true
  | .real x, .real y => x == y
  | l, .int n => l.equalsInt n
  | l, .bool b => l.equalsInt (if b then 1 else 0)
  | .int n, l => l.equalsInt n
  | .bool b, l => l.equalsInt (if b then 1 else 0)
  | _, _ => false

def field? (l : Literal) (name : String) : Option Literal :=
  match l with
  | .record fields => (fields.find? (fun f => f.1 == name)).map (·.2)
  | _ => none

def get (l : Literal) (name : String) : Literal := (l.field? name).getD .null

def textOf (l : Literal) (name : String) : String :=
  match l.get name with
  | .text s => s
  | _ => ""

def items? : Literal → Option (List Literal)
  | .list items => some items
  | _ => none

def parts? : Literal → Option (List Literal)
  | .list items => some items
  | .text s => some (s.toList.map fun c => .text (String.ofList [c]))
  | .record fields => some (fields.map fun f => .text f.1)
  | _ => none

mutual

def depth : Literal → Nat
  | .list items => depthOfItems items + 1
  | .record fields => depthOfFields fields + 1
  | _ => 0

def depthOfItems : List Literal → Nat
  | [] => 0
  | l :: rest => max l.depth (depthOfItems rest)

def depthOfFields : List (String × Literal) → Nat
  | [] => 0
  | (_, l) :: rest => max l.depth (depthOfFields rest)

end

def special? : String → Option Float
  | "inf" => some (1.0 / 0.0)
  | "-inf" => some (-1.0 / 0.0)
  | "nan" => some (0.0 / 0.0)
  | _ => none

-- Texts that name the numbers without digits are read as these numbers. Lists are searched for
-- them; what a record holds is read when it is looked at, and stays as it is until then.
mutual

def withSpecials : Literal → Literal
  | .text s => match special? s with
    | some x => .real x
    | none => .text s
  | .list items => .list (withSpecialsItems items)
  | l => l

def withSpecialsItems : List Literal → List Literal
  | [] => []
  | l :: rest => l.withSpecials :: withSpecialsItems rest

end

end Literal

end MarkovDecision
