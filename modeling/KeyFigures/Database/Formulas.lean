/-
  KeyFigures/Database/Formulas.lean
  =================================
  **Stored formulas.**

  A formula is stored as its canonical text, one row for each version, and
  parsed again when it is read; a row whose text does not parse can be stored
  and cannot be read.  A saved formula gets the number after its highest
  version.
-/
import KeyFigures.Database.Column
import KeyFigures.Library.Definition
import KeyFigures.Log.Journal
import KeyFigures.Value.Number

namespace KeyFigures.Database

/-- A stored version of a formula. -/
structure FormulaRow where
  id : String
  version : Value
  name : String
  category : String
  expression : String
  kind : String
  description : Option String
  metadata : Value
deriving DecidableEq, Repr, Inhabited

/-- The columns of a formula as data. -/
structure FormulaData where
  id : Value
  version : Value
  name : Value
  category : Value
  expression : Value
  kind : Value
  description : Value
  metadata : Value
deriving DecidableEq, Repr, Inhabited

/-- Data, or other data in the place of null. -/
def orElse (v otherwise : Value) : Value := if v.isNull then otherwise else v

/-- The row that the columns make of data.  A null version, category or kind is
    replaced by the usual one; besides, only the description may be null. -/
def FormulaRow.ofValues (d : FormulaData) : Attempt FormulaRow := do
  let id ← textCell d.id
  let version ← numberCell (orElse d.version (.int 1))
  let name ← textCell d.name
  let category ← textCell (orElse d.category (.text "custom"))
  let expression ← textCell d.expression
  let kind ← textCell (orElse d.kind (.text "amount"))
  let description ← textCell d.description
  match id, name, category, expression, kind with
  | some id, some name, some category, some expression, some kind =>
    if version.isNull then .error .refusedRow
    else .ok ⟨id, version, name, category, expression, kind, description, d.metadata⟩
  | _, _, _, _, _ => .error .refusedRow

/-! ### Reading -/

/-- The benchmarks among the stored extras; none may be missing. -/
def benchmarksOf (v : Value) : Attempt (Option Benchmarks) :=
  if v.isTruthy then
    match v with
    | .object members => do
      let threshold (name : String) : Attempt Decimal := do
        (← Definition.required members name).toDecimal
      let excellent ← threshold "excellent"
      let good ← threshold "good"
      let poor ← threshold "poor"
      .ok (some ⟨excellent, good, poor⟩)
    | _ => Attempt.mistyped
  else .ok none

namespace FormulaRow

/-- The stored extras: nothing, or an object. -/
def extras (r : FormulaRow) : Attempt Value :=
  if r.metadata.isTruthy then
    match r.metadata with
    | .object members => .ok (.object members)
    | _ => .error .missingAttribute
  else .ok (.object [])

def definition (r : FormulaRow) : Attempt Definition := do
  let extras ← r.extras
  let tree ← parseText r.expression
  let kind ← ResultKind.ofValue (.text r.kind)
  let benchmarks ← benchmarksOf (extras.getD "benchmarks")
  .ok {
    id := .text r.id
    name := .text r.name
    category := .text r.category
    tree := tree
    kind := kind
    description := .text (r.description.getD "")
    sourceText := .text r.expression
    version := r.version
    interpretation := extras.getD "interpretation"
    benchmarks := benchmarks }

end FormulaRow

/-! ### The table -/

/-- The stored formulas, in the order in which they were stored. -/
abbrev FormulaTable := List FormulaRow

namespace FormulaTable

/-- The rows of an id, the lowest version first. -/
def rowsOf (t : FormulaTable) (id : String) : List FormulaRow :=
  (t.filter (·.id == id)).mergeSort fun a b => cellUpTo a.version b.version

/-- The rows that data asks for as an id. -/
def rowsFor (t : FormulaTable) (id : Value) : Attempt (List FormulaRow) := do
  match ← textCell id with
  | some id => .ok (rowsOf t id)
  | none => .ok []

def ids (t : FormulaTable) : List String :=
  (t.map (·.id)).eraseDups.mergeSort fun a b => decide (a ≤ b)

def get? (t : FormulaTable) (id : Value) : Attempt (Option Definition) := do
  match (← rowsFor t id).getLast? with
  | some r => r.definition.map some
  | none => .ok none

def versions (t : FormulaTable) (id : Value) : Attempt (List Definition) := do
  (← rowsFor t id).mapM (·.definition)

/-- The latest version of every formula, by id. -/
def all (t : FormulaTable) : Attempt (List Definition) :=
  ((ids t).filterMap fun id => (rowsOf t id).getLast?).mapM (·.definition)

/-- Adds a row, unless its version of the formula is stored already. -/
def insert (t : FormulaTable) (r : FormulaRow) : Attempt FormulaTable :=
  if t.any fun s => s.id == r.id && s.version.same r.version then .error .refusedRow
  else .ok (t ++ [r])

/-- The number of the next version of a formula: one more than the highest, and
    one where there is none or the highest counts as nothing. -/
def nextNumber (t : FormulaTable) (id : Value) : Attempt Value := do
  match (← rowsFor t id).getLast? with
  | some r => if r.version.isTruthy then Attempt.ofTyped r.version.successor? else .ok (.int 1)
  | none => .ok (.int 1)

/-- What is stored of a definition besides its columns. -/
def extrasOf (d : Definition) : Value :=
  let interpretation :=
    if d.interpretation.isTruthy then [("interpretation", d.interpretation)] else []
  let benchmarks := match d.benchmarks with
    | some b =>
      [("benchmarks", Value.object [("excellent", .text b.excellent.toText),
        ("good", .text b.good.toText), ("poor", .text b.poor.toText)])]
    | none => []
  match interpretation ++ benchmarks with
  | [] => .null
  | members => .object members

/-- The word that a proper kind is stored as. -/
def kindWord (kind : ResultKind) : Attempt String :=
  match kind.text? with
  | some word => .ok word
  | none => .error .missingAttribute

/-- Stores the next version of a formula; the second part is the definition as
    stored. -/
def save (t : FormulaTable) (d : Definition) : Attempt (FormulaTable × Definition) := do
  let number ← nextNumber t d.id
  let expression ← d.tree.toText
  let kind ← kindWord d.kind
  let row ← FormulaRow.ofValues {
    id := d.id
    version := number
    name := d.name
    category := d.category
    expression := .text expression
    kind := .text kind
    description := if d.description.isTruthy then d.description else .null
    metadata := extrasOf d }
  let t ← insert t row
  .ok (t, { d with sourceText := .text expression, version := number })

end FormulaTable

def noteStored (d : Definition) : Log.Recorded Unit :=
  Log.event Log.debug "services.sql_formula_store" "stored_formula_inserted"
    [("formula_id", d.id), ("version", d.version)]

end KeyFigures.Database
