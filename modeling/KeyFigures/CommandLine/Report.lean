/-
  KeyFigures/CommandLine/Report.lean
  ==================================
  **What the command line writes.**

  Lists and reports are sixty-four columns wide.  A report has a line for each
  year: the figure, set to the right, then its rating or the reason why there
  is none, and its warnings below.
-/
import KeyFigures.CommandLine.Options
import KeyFigures.Service.Task
import KeyFigures.Display
import KeyFigures.Library.Basic

namespace KeyFigures.CommandLine

/-! ### Layout -/

def ruled (c : Char) : String := String.ofList (List.replicate 64 c)

/-- A text with blanks before it, at least `width` characters wide. -/
def toRight (width : Nat) (s : String) : String :=
  String.ofList (List.replicate (width - s.length) ' ') ++ s

/-- A text with blanks behind it, at least `width` characters wide. -/
def toLeft (width : Nat) (s : String) : String :=
  s ++ String.ofList (List.replicate (width - s.length) ' ')

/-! ### The library -/

/-- The lines of a definition: its id and name, and its source below. -/
def definitionLines (d : Definition) : List String := [
  "    " ++ toLeft 22 d.id.display ++ " " ++ d.name.display,
  "    " ++ toLeft 22 "" ++ " " ++ d.sourceText.display]

/-- The lines of definitions, with a heading wherever the category changes from
    the one before. -/
def listing (current : Value) : List Definition → List String
  | [] => []
  | d :: rest =>
    let heading :=
      if d.category.same current then [] else ["", "  [" ++ d.category.display ++ "]"]
    heading ++ definitionLines d ++ listing d.category rest

def libraryLines (l : Library) : List String :=
  [ruled '=', "  FORMULA LIBRARY " ++ l.version, ruled '='] ++ listing .null l.formulas ++ [""]

/-! ### Figures -/

def figureLines (label : String) (benchmarks : Option Benchmarks) (p : SeriesPoint) :
    Attempt (List String) := do
  let shown ← displayResult p.result label
  let rating ← match benchmarks, p.result.value? with
    | some b, some d => (b.rate d).map fun rating => "   " ++ rating.text
    | _, _ => .ok ""
  let reason ← match p.result.error? with
    | some e => e.text.map fun word => "   (" ++ word ++ ")"
    | none => .ok ""
  .ok (("  " ++ intText p.year ++ "  " ++ toRight 20 shown ++ rating ++ reason)
    :: p.result.warnings.map fun w => "        warning: " ++ w.message)

def points (year : Int) : Response → List SeriesPoint
  | .figure r => [⟨year, r⟩]
  | .series points => points

def reportLines (q : Question) (label : String) (benchmarks : Option Benchmarks) (r : Response) :
    Attempt (List String) := do
  let title := (q.formulaId <|> q.formula).getD ""
  let body ← (points q.years.1 r).mapM (figureLines label benchmarks)
  .ok ([ruled '=', "  " ++ title ++ "   (" ++ ", ".intercalate q.clients ++ ")", ruled '-']
    ++ body.flatten ++ [ruled '='])

/-! ### Help -/

def programName : String := "evaluate_formula.py"

def usageLines : List String := [
  "usage: evaluate_formula.py [-h] [--db DB] [--client CLIENT]",
  "                           [--year YEAR | --years START END]",
  "                           [--formula FORMULA | --formula-id FORMULA_ID]",
  "                           [--kind \x7bamount,percentage,ratio\x7d]",
  "                           [--version VERSION]",
  "                           [--standard-mapping | --no-standard-mapping]",
  "                           [--list] [--verbose]"]

def optionLines : List String := [
  "options:",
  "  -h, --help            show this help message and exit",
  "  --db DB               Database URL",
  "  --client CLIENT       Client (entity) id; repeat for a group",
  "  --year YEAR           Fiscal year",
  "  --years START END     Fiscal year range",
  "  --formula FORMULA     Formula text, e.g. \"[1] - [10]\"",
  "  --formula-id FORMULA_ID",
  "                        Standard or saved formula id",
  "  --kind \x7bamount,percentage,ratio\x7d",
  "                        Result kind for --formula (default: amount)",
  "  --version VERSION     Ledger upload version",
  "  --standard-mapping, --no-standard-mapping",
  "                        Group accounts by the client's standard-chart mapping",
  "                        (default: use_standard_mapping from engine settings)",
  "  --list                List the formula library and exit",
  "  --verbose             Emit JSON logs to stderr"]

def helpLines : List String :=
  usageLines ++ ["", "Evaluate a financial formula against stored trial balances.", ""]
    ++ optionLines

def faultLines (f : UsageFault) : List String :=
  usageLines ++ [programName ++ ": error: " ++ f.message]

end KeyFigures.CommandLine
