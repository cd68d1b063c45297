/-
  KeyFigures/Exchange/Requests.lean
  =================================
  **Requests as data.**

  A request names its formula, entities and years and says how it is made: for
  one figure, a series or a sum, or from all its parts.  A text in the place of
  a list of entities stands for its characters.
-/
import KeyFigures.Exchange.Figures
import KeyFigures.Service.Request

namespace KeyFigures

def FormulaSource.ofData (v : Value) : Attempt FormulaSource := do
  let kind ← ResultKind.ofStrictMember v
  FormulaSource.ofParts (v.getD "id") (v.getD "source") kind

namespace Request

def ofData (v : Value) : Attempt Request := do
  let formula ← FormulaSource.ofData (v.getD "formula")
  let entities := v.getD "entities"
  let version := v.getD "version"
  let years := v.getD "years"
  match v.getD "make" with
  | .text "single" =>
    let year ← years.itemAt 0
    Request.single entities year formula version
  | .text "series" =>
    let first ← years.itemAt 0
    let last ← years.itemAt 1
    let entities ← entitiesOrOne entities
    Request.series entities first last formula version
  | .text "aggregate" =>
    let year ← years.itemAt 0
    let entities ← Attempt.ofTyped entities.items?
    Request.aggregate entities year formula version
  | _ =>
    let entities ← Attempt.ofTyped entities.items?
    let years ← Attempt.ofTyped years.items?
    let shape ← match v.getD "shape" with
      | .null => .ok none
      | s => (Shape.ofValue s).map some
    Request.make entities years formula version shape

def toData (r : Request) : Value :=
  .object [("shape", .text r.shape.text), ("entities", .list r.entities),
    ("years", .list [r.first, r.last]), ("version", r.version),
    ("is_series", .bool r.isSeries), ("is_aggregate", .bool r.isAggregate)]

end Request

end KeyFigures
