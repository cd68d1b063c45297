/-
  KeyFigures/Service/Request.lean
  ===============================
  **What can be asked of the service.**

  A request names entities, a range of fiscal years, a formula and possibly an
  upload version.  Its shape says what is answered: one figure, the sum over
  several entities, or one figure for each year.  A request without a shape
  takes it from its entities and years.
-/
import KeyFigures.Formula.Builder
import KeyFigures.Result

namespace KeyFigures

/-! ### Formula sources -/

/-- What to evaluate: a stored formula, or a source with the kind of its
    result. -/
inductive FormulaSource where
  | stored (id : Value)
  | written (source : Value) (kind : ResultKind)
deriving Inhabited

/-- A formula source from its parts: either an id or a source, the other being
    null. -/
def FormulaSource.ofParts (id source : Value) (kind : ResultKind) : Attempt FormulaSource :=
  if id.isNull == source.isNull then Attempt.refuse .sourceNotUnique
  else if source.isNull then .ok (.stored id)
  else
    match source with
    | .text s => .ok (.written (.text s) kind)
    | v => do
      let items ← Attempt.ofTyped v.items?
      .ok (.written (.tuple items) kind)

/-! ### Shapes -/

/-- What a request asks for. -/
inductive Shape where
  | single
  | aggregate
  | series
deriving DecidableEq, Repr, Inhabited

namespace Shape

def text : Shape → String
  | .single => "single"
  | .aggregate => "aggregate"
  | .series => "series"

/-- The shape that data names; anything else is refused. -/
def ofValue (v : Value) : Attempt Shape :=
  match v.text? with
  | some "single" => .ok .single
  | some "aggregate" => .ok .aggregate
  | some "series" => .ok .series
  | _ => Attempt.refuse (.notAMember "RequestShape" v.shown)

/-- The shape of a request that leaves it open. -/
def inferred (entities : List Value) (first last : Value) : Shape :=
  if !first.same last then .series
  else if 1 < entities.length then .aggregate
  else .single

end Shape

/-! ### Requests -/

/-- A request.  Entities, years and version are data; the years have an order. -/
structure Request where
  entities : List Value
  first : Value
  last : Value
  formula : FormulaSource
  version : Value
  shape : Shape
  entities_ne_nil : entities ≠ []
  entities_distinct : entities.Pairwise fun a b => a.same b = false
  entities_areKeys : ∀ entity ∈ entities, entity.isKey = true
  first_upTo_last : last.before? first = some false
  one_year : shape ≠ .series → first.same last = true
  one_entity : shape = .single → entities.length ≤ 1

namespace Request

/-- The first and the last of exactly two years. -/
def yearsOf (years : List Value) : Attempt (Value × Value) :=
  match years with
  | [first, last] => .ok (first, last)
  | [] | [_] => Attempt.refuse (.yearsMissing years.length)
  | _ => Attempt.refuse .yearsSuperfluous

/-- A request from its parts; repeated entities count once. -/
def make (entities years : List Value) (formula : FormulaSource) (version : Value)
    (shape : Option Shape) : Attempt Request :=
  if h₀ : entities.all Value.isKey = true then
    let entities' := Value.distinct entities
    if h₁ : entities' = [] then Attempt.refuse .noEntity
    else do
      let (first, last) ← yearsOf years
      match h₂ : last.before? first with
      | none => Attempt.mistyped
      | some true => Attempt.refuse (.emptyYearRange first last)
      | some false =>
        let shape := shape.getD (Shape.inferred entities' first last)
        if h₃ : shape ≠ .series ∧ first.same last = false then
          Attempt.refuse (.severalYears shape.text first last)
        else if h₄ : shape = .single ∧ 1 < entities'.length then Attempt.refuse .severalEntities
        else
          .ok {
            entities := entities'
            first := first
            last := last
            formula := formula
            version := version
            shape := shape
            entities_ne_nil := h₁
            entities_distinct := Value.pairwise_distinct _
            entities_areKeys := fun e h =>
              List.all_eq_true.mp h₀ e (Value.mem_of_mem_distinct h)
            first_upTo_last := h₂
            one_year := fun h => by
              cases hs : first.same last with
              | true => rfl
              | false => exact absurd ⟨h, hs⟩ h₃
            one_entity := fun h => Nat.not_lt.mp fun lt => h₄ ⟨h, lt⟩ }
  else Attempt.mistyped

def single (entity year : Value) (formula : FormulaSource) (version : Value) : Attempt Request :=
  make [entity] [year, year] formula version (some .single)

def series (entities : List Value) (first last : Value) (formula : FormulaSource)
    (version : Value) : Attempt Request :=
  make entities [first, last] formula version (some .series)

def aggregate (entities : List Value) (year : Value) (formula : FormulaSource)
    (version : Value) : Attempt Request :=
  make entities [year, year] formula version (some .aggregate)

/-- The entities that data lists; a text is one entity. -/
def entitiesOrOne (v : Value) : Attempt (List Value) :=
  match v with
  | .text s => .ok [.text s]
  | v => Attempt.ofTyped v.items?

/-- Whether one figure for each year is asked for. -/
def isSeries (r : Request) : Bool := r.shape == .series

def isAggregate (r : Request) : Bool := decide (1 < r.entities.length)

end Request

end KeyFigures
