import MarkovDecision.Journal.Basic
import MarkovDecision.Literal.Text

namespace MarkovDecision

namespace JournalText

def bold (s : String) : String := "\x1b[1m" ++ s ++ "\x1b[0m"

def right (width : Nat) (s : String) : String :=
  String.ofList (List.replicate (width - s.length) ' ') ++ s

def rule (c : Char) (length : Int) : String :=
  String.ofList (List.replicate length.toNat c) ++ "\n"

def captioned (caption value : String) : String := caption ++ "\t" ++ bold value ++ "\n"

def cells (step value time : String) : String :=
  "| " ++ right 8 step ++ " | " ++ right 20 value ++ " | " ++ right 10 time ++ " |\n"

def blank : String := "\n\n"

def algorithmLine (name : String) : String := captioned "Algorithm name:              " name

def objectiveLine (text : String) : String := captioned "Objective:                   " text

def statesLine (states : Nat) : String :=
  captioned "Number of states:            " (Literal.intText states)

def header (column : String) : String := cells "Iter" column "T(s)"

def opening (length : Int) (algorithm column objective : String) (states : Nat) : String :=
  blank ++ rule '=' length ++ algorithmLine algorithm ++ objectiveLine objective
    ++ statesLine states ++ rule '=' length ++ header column ++ rule '-' length

-- No time passes on the frozen clock of a run.
def row (step : Int) (value : Float) : String :=
  cells (Literal.intText step) (Decimal.fixed 6 value) (Decimal.fixed 4 0)

def closingLine (converged : String) : String := captioned "Converged:                   " converged

def closing (length : Int) (converged : String) : String :=
  rule '-' length ++ closingLine converged

def programSize (unknowns constraints : Literal) : String :=
  bold ("LP with " ++ unknowns.display ++ " variables and " ++ constraints.display ++ " constraints")
    ++ "\n"

end JournalText

def Event.text (length : Int) : Event Float → String
  | .opening algorithm column objective states =>
    JournalText.opening length algorithm column (objective.text?.getD objective.name) states
  | .brokenOpening => JournalText.blank
  | .row step value => JournalText.row step value.value
  | .closing converged => JournalText.closing length (Literal.bool converged).display
  | .warning _ | .backendCall _ => ""
  | .programSize unknowns constraints => JournalText.programSize unknowns constraints

def Journal.text (j : Journal Float) (settings : Settings Float) : String :=
  if settings.verbose then
    "".intercalate (j.toList.map (Event.text (settings.lineLength.getD 0)))
  else ""

def Warning.text : Warning Float → String
  | .unstablePolicy iterations =>
    "Policy iteration stopped after " ++ Literal.intText iterations
      ++ " iterations without a stable policy."
  | .residualAbove iterations residual threshold =>
    "Value iteration stopped after " ++ Literal.intText iterations ++ " iterations with residual "
      ++ Decimal.scientific 3 residual ++ " > " ++ Decimal.scientific 3 threshold ++ "."

end MarkovDecision
