import MarkovDecision.LinearProgram.Backend
import MarkovDecision.LinearProgram.Exact
import MarkovDecision.Model.Reading
import MarkovDecision.Objective

namespace MarkovDecision

def kindField : String := "kind"

namespace Model

def readWithin : Nat → Literal → Outcome Float (Model Float)
  | 0, _ => .error .invalidInput
  | depth + 1, l =>
    let look name := (l.get name).withSpecials
    match l.textOf kindField with
    | "int" => do
      let tolerance ← match look "prob_tol" with
        | .null => pure FlatModel.defaultTolerance
        | t => do
          Outcome.ofOption (t.quantity?.bind (·.value?))
      return .flat (← FlatModel.read (look "states") tolerance)
    | "table" => do
      return .table (← Table.read (look "states"))
    | "matrices" => do
      return .flat (← FlatModel.readMatrices (look "P") (look "r") (look "compress").truthy)
    | "copy" => do
      let m ← readWithin depth (l.get "of")
      return .flat (← m.flatten (look "compress").truthy)
    | _ => .error .invalidInput

def read (l : Literal) : Outcome Float (Model Float) := readWithin (l.depth + 1) l

end Model

def Goal.read (l : Literal) : Outcome Float (Goal Float) :=
  let look name := (l.get name).withSpecials
  match l.textOf kindField with
  | "finite" => do
    return .objective (← Objective.readFinite (look "discount") (look "horizon"))
  | "infinite" => do
    return .objective (← Objective.readInfinite (look "discount"))
  | "total" => .ok (.objective .total)
  | "base" => .ok (.objective .base)
  | _ => .ok (.bare l.withSpecials)

namespace BackendChoice

def standard : Backend Float := .deferred ExactProgram.solveFloat (.text "") true

def annotated (message : Literal) : Backend Float := .deferred ExactProgram.solveFloat message false

def readScript (l : Literal) : Backend.Script :=
  let look name := (l.get name).withSpecials
  { status := l.get "status"
    message := l.get "message"
    solution := look "solution"
    multipliers := look "duals"
    value := look "value"
    size := ((l.field? "size").getD Backend.Script.noSize).withSpecials }

end BackendChoice

inductive BackendName where
  | deferred (message : Option Literal)
  | immediate
  | silent
  | scripted (s : Backend.Script)
  | other (l : Literal)

namespace BackendName

def isScripted : BackendName → Bool
  | scripted _ => true
  | _ => false

def read (known : String → Option BackendName) (l : Literal) : Option BackendName :=
  match l with
  | .null => none
  | .text name => some ((known name).getD (other l))
  | l =>
    match l.textOf kindField with
    | "annotated" => some (deferred (some (l.get "message")))
    | "canned" => some (scripted (BackendChoice.readScript l))
    | _ => some (other l)

def choice : BackendName → BackendChoice Float
  | deferred none => .backend BackendChoice.standard
  | deferred (some message) => .backend (BackendChoice.annotated message)
  | immediate => .backend (.immediate ExactProgram.solveFloat)
  | silent => .backend .silent
  | scripted s => .backend (.scripted s)
  | other l => .other l

end BackendName

structure BackendRequest where
  asked : Option BackendName
  configured : Option BackendName

namespace BackendRequest

def read (known : String → Option BackendName) (asked configuration : Literal) : BackendRequest :=
  ⟨BackendName.read known asked, BackendName.read known (configuration.get "solver_name")⟩

def chosen (r : BackendRequest) : BackendName :=
  (r.asked.orElse fun _ => r.configured).getD (.deferred none)

def names (r : BackendRequest) : List BackendName := r.asked.toList ++ r.configured.toList

def resolve (r : BackendRequest) (settings : Settings Float) : Outcome Float (Backend Float) :=
  r.chosen.choice.resolve settings.backend

end BackendRequest

end MarkovDecision
