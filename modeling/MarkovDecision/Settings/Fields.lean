import MarkovDecision.Failure

namespace MarkovDecision

namespace Settings

-- Name and default of every field, in the order in which a configuration lists them. The number
-- of workers depends on the machine, so its default is left open.
def defaultFields : List (String × Literal) :=
  [("iterations", .int 1000),
   ("epsilon", .real 1e-3),
   ("stop_rule", .text "supnorm"),
   ("parallel", .bool false),
   ("num_cpu_core", .null),
   ("verbose", .bool false),
   ("print_len", .int 72),
   ("prob_tol", .real 1e-6),
   ("binding_tol", .real 1e-7),
   ("solver_name", .null),
   ("lp_method", .text "highs"),
   ("feasibility_tol", .real 1e-9),
   ("optimality_tol", .real 1e-9),
   ("seed", .int 333)]

def supremumName : String := "supnorm"

def spanName : String := "span"

def givenFields (given : Literal) : Outcome Float (List (String × Literal)) :=
  match given with
  | .null => .ok []
  | .record fields => .ok (fields.map fun (name, l) => (name, l.withSpecials))
  | _ => .error .settingsNotRecord

def isPositiveWhole (l : Literal) : Bool :=
  match l.whole? with
  | some n => 1 ≤ n
  | none => false

def isStopRule (l : Literal) : Bool :=
  match l with
  | .text s => s == supremumName || s == spanName
  | _ => false

def checkFields (given : List (String × Literal)) : Outcome Float Unit := do
  let look name := (given.find? (fun f => f.1 == name)).map (·.2)
  if let some l := look "iterations" then
    if !isPositiveWhole l then throw .iterationCap
  if let some l := look "epsilon" then
    match l with
    -- whole numbers of any size can be compared
    | .int n => if n ≤ 0 then throw .toleranceNotPositive
    | l =>
      let x ← Outcome.ofOption l.quantity?
      if !(0 < (x.value : Float)) then throw .toleranceNotPositive
  if let some l := look "stop_rule" then
    if !isStopRule l then throw (.stopRuleUnknown l)
  if let some l := look "num_cpu_core" then
    if !isPositiveWhole l then throw .workerCount

def completeFields (given : Literal) : Outcome Float (List (String × Literal)) := do
  let given ← givenFields given
  given.forM fun (name, _) =>
    if defaultFields.any (fun f => f.1 == name) then .ok () else .error (.settingUnknown name)
  checkFields given
  return defaultFields.map fun (name, default) =>
    (name, ((given.find? (fun f => f.1 == name)).map (·.2)).getD default)

end Settings

end MarkovDecision
