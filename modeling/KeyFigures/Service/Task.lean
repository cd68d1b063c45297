/-
  KeyFigures/Service/Task.lean
  ============================
  **What there is to do for a call.**

  A call asks for a figure or for a series.  The figure of one entity and one
  year is looked up; the figure of several entities is the sum of theirs; a
  series has one figure for each year.  Every part is a task of its own, owned
  by the task whose part it is or by the caller.
-/
import KeyFigures.Registry.Basic
import KeyFigures.Service.Request
import KeyFigures.Service.Aggregate
import KeyFigures.Service.Series
import KeyFigures.Formula.Fingerprint
import KeyFigures.Log.Context

namespace KeyFigures

/-! ### Compiled formulas -/

/-- A formula without references, its result kind and its key. -/
structure Compiled where
  tree : Term
  kind : ResultKind
  key : String
deriving DecidableEq, Repr, Inhabited

def Compiled.ofTree (tree : Term) (kind : ResultKind) : Attempt Compiled :=
  (formulaKey tree kind.word).map fun key => ⟨tree, kind, key⟩

/-- Compiles a formula source; a stored formula has a kind of its own. -/
def Registry.compile (r : Registry) (f : FormulaSource) : Attempt Compiled := do
  match f with
  | .stored id =>
    let d ← r.definition id
    let tree ← r.resolveId id
    Compiled.ofTree tree d.kind
  | .written source kind =>
    let tree ← r.resolveSource source
    Compiled.ofTree tree kind

/-! ### Work -/

/-- A figure to be found. -/
inductive Figure where
  | single (entity year : Value)
  | sum (entities : List Value) (year : Value)
deriving DecidableEq, Repr, Inhabited

/-- The figure of some entities in a year: a single one stands for itself. -/
def Figure.ofYear (entities : List Value) (year : Value) : Figure :=
  match entities with
  | [entity] => .single entity year
  | entities => .sum entities year

/-- What a call asks for. -/
inductive Job where
  | figure (f : Figure)
  | series (entities : List Value) (first last : Value)
deriving DecidableEq, Repr, Inhabited

namespace Job

def ofRequest (r : Request) : Job :=
  if r.isSeries then .series r.entities r.first r.last
  else .figure (.ofYear r.entities r.first)

/-- The years from the first to the last; none if they make no range. -/
def yearsOf (first last : Value) : List Int :=
  match Series.range first last with
  | .ok (first, last) => Series.years first last
  | .error _ => []

/-- The parts of a job; a single figure has none. -/
def parts : Job → List Figure
  | .figure (.single _ _) => []
  | .figure (.sum entities year) => (Value.distinct entities).map fun entity => .single entity year
  | .series entities first last =>
    (yearsOf first last).map fun year => Figure.ofYear entities (.int year)

def check : Job → Attempt Unit
  | .figure (.single _ _) => .ok ()
  | .figure (.sum entities _) => (Aggregate.entitiesOf entities).map fun _ => ()
  | .series _ first last => (Series.range first last).map fun _ => ()

/-- A bound for the number of tasks of a job. -/
def size : Job → Nat
  | .figure (.single _ _) => 1
  | .figure (.sum entities _) => entities.length + 1
  | .series entities first last => (yearsOf first last).length * (entities.length + 1) + 1

end Job

/-! ### Calls -/

/-- A call: the formula, what is asked for, and the request if there is one.
    Whether there is anything to ask for shows only after the formula was
    compiled. -/
structure Call where
  caller : String
  formula : FormulaSource
  version : Value
  job : Attempt Job
  request : Option Request := none
  /-- What is bound in the line of work of the caller. -/
  context : Log.Context := {}

namespace Call

def ofRequest (caller : String) (r : Request) : Call where
  caller := caller
  formula := r.formula
  version := r.version
  job := .ok (.ofRequest r)
  request := some r

def single (caller : String) (entity year : Value) (formula : FormulaSource) (version : Value) :
    Call where
  caller := caller
  formula := formula
  version := version
  job := .ok (.figure (.single entity year))

/-- The entities of a series: a text is one, and of repeated ones the first
    counts. -/
def seriesEntities (entities : Value) : Attempt (List Value) := do
  let items ← Request.entitiesOrOne entities
  if items.all Value.isKey then .ok (Value.distinct items) else Attempt.mistyped

def series (caller : String) (entities first last : Value) (formula : FormulaSource)
    (version : Value) : Call where
  caller := caller
  formula := formula
  version := version
  job := (seriesEntities entities).map fun entities => .series entities first last

def aggregate (caller : String) (entities year : Value) (formula : FormulaSource)
    (version : Value) : Call where
  caller := caller
  formula := formula
  version := version
  job := (Attempt.ofTyped entities.items?).map fun entities => .figure (.ofYear entities year)

/-- A bound for the number of tasks of a call. -/
def size (c : Call) : Nat :=
  match c.job with
  | .ok job => job.size
  | .error _ => 1

def note (c : Call) (key : String) : Log.Recorded Unit :=
  match c.request with
  | some r =>
    Log.event Log.info "services.calculation" "evaluation_requested"
      [("entity_ids", .list r.entities), ("fiscal_years", .list [r.first, r.last]),
        ("version", r.version), ("formula_key", .text key)]
  | none => pure ()

end Call

/-! ### Tasks -/

/-- Whom a task works for. -/
inductive Owner where
  /-- A caller, with what the end of the call has to restore. -/
  | caller (name : String) (saved : Log.Context.Saved)
  /-- Another task, as the part in that place. -/
  | task (number place : Nat)
deriving DecidableEq, Repr, Inhabited

structure Task where
  number : Nat
  owner : Owner
  formula : Compiled
  version : Value
  job : Job
  context : Log.Context
  /-- The results of its parts so far, by place. -/
  results : List (Nat × Result) := []
deriving DecidableEq, Repr, Inhabited

namespace Task

def isPartOf (t : Task) (number : Nat) : Bool :=
  match t.owner with
  | .task owner _ => owner == number
  | .caller _ _ => false

def isOf (t : Task) (name : String) : Bool :=
  match t.owner with
  | .caller caller _ => caller == name
  | .task _ _ => false

/-- The results of the parts in the order of their places. -/
def ordered (t : Task) : List Result :=
  (List.range t.job.parts.length).filterMap fun place =>
    (t.results.find? (·.1 == place)).map (·.2)

def isComplete (t : Task) : Bool := t.results.length == t.job.parts.length

end Task

/-! ### Responses -/

/-- What a call is answered with. -/
inductive Response where
  | figure (r : Result)
  | series (points : List SeriesPoint)
deriving DecidableEq, Repr, Inhabited

/-- The response of a task from the results of its parts; without parts there
    is no figure. -/
def Task.respond (t : Task) : Log.Recorded Response := do
  match t.job with
  | .figure (.single _ _) => return .figure (.missing t.formula.kind)
  | .figure (.sum entities _) =>
    let r ← Aggregate.summedRecorded t.formula.kind (Value.distinct entities) t.ordered
    return .figure r
  | .series _ first last =>
    let points := ((Job.yearsOf first last).zip t.ordered).map fun (year, r) =>
      (⟨year, r⟩ : SeriesPoint)
    return .series points

end KeyFigures
