/-
  KeyFigures/Display.lean
  =======================
  **Figures as they are displayed.**

  An amount is shown without its sign in whole units, its digits in groups of
  three behind a currency label; a percentage with one place and a sign of per
  cent; a ratio with two places.  A half is rounded away from zero.  Values are
  never rescaled, and a result without a value is shown as not available.
-/
import KeyFigures.Result
import KeyFigures.Decimal.Arithmetic

namespace KeyFigures

def notAvailable : String := "N/A"

/-- The separator of groups of digits: a blank at which no line breaks. -/
def groupSeparator : Char := '\u00a0'

def defaultLabel : String := "kr"

def displayValue (value : Decimal) (kind : ResultKind) (label : String) : Attempt String :=
  match kind with
  | .percentage => do
    let d ← Attempt.ofDecimal (value.quantize .awayFromZero (-1))
    .ok (d.toText ++ "%")
  | .ratio => do
    let d ← Attempt.ofDecimal (value.quantize .awayFromZero (-2))
    .ok d.toText
  | .amount => do
    let magnitude ← Attempt.ofDecimal value.abs
    let d ← Attempt.ofDecimal (magnitude.quantize .awayFromZero 0)
    .ok (label ++ " " ++ String.ofList (d.groupedChars groupSeparator))
  | .other _ => .ok value.toText

def displayResult (r : Result) (label : String) : Attempt String :=
  match r.outcome with
  | .value d => displayValue d r.kind label
  | .invalid _ => .ok notAvailable

end KeyFigures
