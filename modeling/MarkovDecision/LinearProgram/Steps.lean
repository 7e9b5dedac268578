import MarkovDecision.Description
import MarkovDecision.LinearProgram.Call

namespace MarkovDecision

inductive ProgramStep where
  | setUp (count : Int) (lower upper : Option (Tensor Float))
  | constraints (matrix : SparseMatrix Float) (rhs : Tensor Float)
  | objective (coefficients : Tensor Float) (direction : Direction)
  | prepare
  | optimize
  | size
  | status
  | value
  | solution
  | multipliers

inductive StepAnswer where
  | nothing
  | counts (unknowns : Int) (constraints : Nat)
  | text (s : String)
  | number (x : Float)
  | numbers (xs : List Float)
  | array (t : Tensor Float)
  | literal (l : Literal)

namespace ProgramStep

def readTensor (l : Literal) : Outcome Float (Tensor Float) := Outcome.ofOption l.reals?

def readBounds (l : Literal) : Outcome Float (Option (Tensor Float)) :=
  match l with
  | .null => .ok none
  | l => (readTensor l).map some

def readCount (l : Literal) : Outcome Float Int := Outcome.ofOption l.whole?

def readDirection : List Literal → Direction
  | l :: _ => .ofMaximise l.truthy
  | [] => .maximise

def read (call : Literal) : Outcome Float ProgramStep :=
  match call with
  | .list (.text name :: args) =>
    match name, args.map Literal.withSpecials with
    | "variables", n :: rest => do
      return setUp (← readCount n) (← readBounds (rest.getD 0 .null)) (← readBounds (rest.getD 1 .null))
    | "constraints", [matrix, rhs] | "constraints_sparse", [matrix, rhs] => do
      return constraints (← sparseOf (← readTensor matrix)) (← readTensor rhs)
    | "objective", c :: rest => do
      return objective (← readTensor c) (readDirection rest)
    | "prepare", _ => .ok prepare
    | "optimize", _ => .ok optimize
    | "size", _ => .ok size
    | "status", _ => .ok status
    | "value", _ => .ok value
    | "solution", _ => .ok solution
    | "duals", _ => .ok multipliers
    | _, _ => .error .invalidInput
  | _ => .error .invalidInput

def call : ProgramStep → BackendCall Float
  | setUp n lower upper =>
    .setUpVariables n (lower.map fun t => t.cells.toList) (upper.map fun t => t.cells.toList)
  | constraints matrix rhs => .addConstraints matrix rhs.cells.toList
  | objective c direction => .setObjective c.cells.toList direction
  | prepare => .prepare
  | optimize => .optimize
  | size => .size
  | status => .status
  | value => .value
  | solution => .solution
  | multipliers => .multipliers

end ProgramStep

inductive LoadedProgram where
  | deferred (p : DeferredProgram Float)
  | immediate (p : ImmediateProgram Float)
  | silent
  | scripted (s : Backend.Script)

namespace LoadedProgram

def start : BackendName → LoadedProgram
  | .deferred _ => deferred .empty
  | .immediate => immediate .empty
  | .scripted s => scripted s
  | _ => silent

def changed {σ : Type} (before : σ) (x : Outcome Float σ) : σ × Outcome Float StepAnswer :=
  match x with
  | .ok after => (after, .ok .nothing)
  | .error e => (before, .error e)

def takeDeferred (settings : BackendSettings) (p : DeferredProgram Float) :
    ProgramStep → DeferredProgram Float × Outcome Float StepAnswer
  | .setUp n lower upper => changed p (p.setUpVariables Tensor.usualCapacity n lower upper)
  | .constraints matrix rhs => changed p (.ok (p.addConstraints matrix rhs))
  | .objective c direction => changed p (.ok (p.setObjective c direction))
  | .prepare => (p.prepare.1, p.prepare.2.map fun _ => .nothing)
  | .optimize => changed p (p.optimize (SolverCall.checked settings ExactProgram.solveFloat))
  | .size => (p, .ok (.counts p.size.1 p.size.2))
  | .status => (p, p.status.map .text)
  | .value => (p, p.value.map .number)
  | .solution => (p, p.solution.map .numbers)
  | .multipliers => (p, p.multipliers.map .numbers)

def takeImmediate (p : ImmediateProgram Float) :
    ProgramStep → ImmediateProgram Float × Outcome Float StepAnswer
  | .setUp n lower upper => changed p (p.setUpVariables Tensor.usualCapacity n lower upper)
  | .constraints matrix rhs => changed p (p.addConstraints matrix rhs)
  | .objective c direction => changed p (p.setObjective c direction)
  | .prepare => (p.update, .ok .nothing)
  | .optimize => (p.optimize ExactProgram.solveFloat, .ok .nothing)
  | .size => (p, .ok (.counts p.size.1 p.size.2))
  | .status => (p, .ok (.text p.status))
  | .value => (p, p.value.map .number)
  | .solution => (p, p.solution.map .numbers)
  | .multipliers => (p, p.multipliers.map .numbers)

def scriptArray (l : Literal) : Outcome Float StepAnswer := do
  match ← Backend.Script.readArray l with
  | none => return .nothing
  | some t => return .array t

def scriptAnswer (s : Backend.Script) : ProgramStep → Outcome Float StepAnswer
  | .size => .ok (.literal s.size)
  | .status => .ok (.literal s.status)
  | .value => .ok (.literal s.value)
  | .solution => scriptArray s.solution
  | .multipliers => scriptArray s.multipliers
  | _ => .ok .nothing

def take (settings : BackendSettings) (loaded : LoadedProgram) (step : ProgramStep) :
    LoadedProgram × Outcome Float StepAnswer :=
  match loaded with
  | deferred p =>
    let (p, x) := takeDeferred settings p step
    (deferred p, x)
  | immediate p =>
    let (p, x) := takeImmediate p step
    (immediate p, x)
  | silent => (silent, .ok .nothing)
  | scripted s => (scripted s, scriptAnswer s step)

def takeAll (settings : BackendSettings) : LoadedProgram → List (Outcome Float ProgramStep) →
    List (Outcome Float StepAnswer)
  | _, [] => []
  | loaded, .error e :: rest => .error e :: takeAll settings loaded rest
  | loaded, .ok step :: rest =>
    let (loaded, x) := loaded.take settings step
    x :: takeAll settings loaded rest

end LoadedProgram

end MarkovDecision
