/-
  KeyFigures/Exchange/Calls.lean
  ==============================
  **Calls of the service as data.**

  A call names its caller and the way it is made: for one figure, a series or a
  sum, or with a request.
-/
import KeyFigures.Exchange.Requests
import KeyFigures.Exchange.Failures
import KeyFigures.Service.Task

namespace KeyFigures

def Call.ofData (v : Value) : Attempt Call := do
  let caller := (v.getD "as").display
  let entities := v.getD "entities"
  let version := v.getD "version"
  let years := v.getD "years"
  match v.getD "via" with
  | .text "single" =>
    let formula ← FormulaSource.ofData (v.getD "formula")
    let year ← years.itemAt 0
    .ok (.single caller entities year formula version)
  | .text "series" =>
    let formula ← FormulaSource.ofData (v.getD "formula")
    let range ← Attempt.ofTyped years.items?
    match range with
    | [first, last] => .ok (.series caller entities first last formula version)
    | _ => Attempt.mistyped
  | .text "aggregate" =>
    let formula ← FormulaSource.ofData (v.getD "formula")
    let year ← years.itemAt 0
    .ok (.aggregate caller entities year formula version)
  | _ => (Request.ofData v).map (Call.ofRequest caller)

/-- A response: a result, or the points of a series. -/
def Response.toData : Response → Value
  | .figure r => r.toData
  | .series points => .list (points.map SeriesPoint.toData)

end KeyFigures
