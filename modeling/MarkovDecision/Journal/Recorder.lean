import MarkovDecision.Journal.Text
import MarkovDecision.Literal.Tensor

namespace MarkovDecision

structure Recorder where
  name : Literal
  columns : List Literal
  settings : Settings Float
  -- the rows in the order in which they were added
  rows : List (Literal × Literal)

namespace Recorder

def printed : List (Outcome Float String) → String × Outcome Float Unit
  | [] => ("", .ok ())
  | .ok piece :: rest =>
    let (text, outcome) := printed rest
    (piece ++ text, outcome)
  | .error e :: _ => ("", .error e)

def whenVerbose (r : Recorder) (pieces : List (Outcome Float String)) : String × Outcome Float Unit :=
  if r.settings.verbose then printed pieces else ("", .ok ())

def rule (r : Recorder) (c : Char) : Outcome Float String :=
  match r.settings.lineLength with
  | some n => .ok (JournalText.rule c n)
  | none => .error .invalidInput

def header (r : Recorder) : Outcome Float String :=
  match r.columns with
  | _ :: .text column :: _ => .ok (JournalText.header column)
  | _ :: _ :: _ => .error .invalidInput
  | _ => .error .index

def opening (r : Recorder) (objective : String) (states : Option Nat) : String × Outcome Float Unit :=
  r.whenVerbose [
    .ok JournalText.blank,
    r.rule '=',
    .ok (JournalText.algorithmLine r.name.display),
    .ok (JournalText.objectiveLine objective),
    Outcome.ofOption (states.map JournalText.statesLine),
    r.rule '=',
    r.header,
    r.rule '-']

def rowText (step value : Literal) : Outcome Float String := do
  let x ← Outcome.ofOption (match value with
    | .null => none
    | l => l.cellReal?)
  let n ← Outcome.ofOption step.whole?
  return JournalText.row n x

def isName : Literal → Bool
  | .list _ | .record _ => false
  | _ => true

-- A row needs the names of two columns, and is kept even if it cannot be printed.
def append (r : Recorder) (step value : Literal) : Recorder × String × Outcome Float Unit :=
  match r.columns with
  | first :: second :: _ =>
    if !isName first || !isName second then (r, "", .error .invalidInput)
    else ({ r with rows := r.rows ++ [(step, value)] }, r.whenVerbose [rowText step value])
  | _ => (r, "", .error .index)

def close (r : Recorder) (converged : Literal) : String × Outcome Float Unit :=
  r.whenVerbose [r.rule '-', .ok (JournalText.closingLine converged.display)]

def isNumberOrNull : Literal → Bool
  | .null | .int _ | .real _ => true
  | _ => false

-- A column of numbers with a real or a missing one among them is a column of reals. Any other
-- column keeps its values as they are.
def column (cells : List Literal) : List Literal :=
  let isNumeric := cells.all isNumberOrNull
  let hasNumber := cells.any fun | .int _ | .real _ => true | _ => false
  let isWhole := cells.all fun | .int _ => true | _ => false
  if isNumeric && hasNumber && !isWhole then
    cells.map fun l => match l.cellReal? with
      | some x => .real x
      | none => l
  else cells

def table (r : Recorder) : List (Literal × Literal) :=
  (column (r.rows.map (·.1))).zip (column (r.rows.map (·.2)))

end Recorder

end MarkovDecision
