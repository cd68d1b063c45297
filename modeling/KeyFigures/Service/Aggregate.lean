/-
  KeyFigures/Service/Aggregate.lean
  =================================
  **One formula summed over several entities.**

  The sum runs over the entities with a valid result, in their order.  An
  entity whose ledger is missing counts like one with an invalid result: it is
  left out.  Without any valid result there is no sum.  Warnings are merged,
  one for each reference.
-/
import KeyFigures.Result
import KeyFigures.Decimal.Arithmetic
import KeyFigures.Log.Journal
import KeyFigures.Value.Json

namespace KeyFigures.Aggregate

/-- A missing ledger as a result; any other failure stays one. -/
def contribution (kind : ResultKind) (r : Attempt Result) : Attempt Result :=
  match r with
  | .error f => if f.isMissingLedger then .ok (.missing kind) else .error f
  | r => r

/-- The sum of the valid results, added up in order from `start`. -/
def total (start : Decimal) (results : List Result) : Attempt Decimal :=
  (results.filterMap (·.value?)).foldlM (fun sum d => Attempt.ofDecimal (sum.add d)) start

/-- The warnings of all results, one for each reference. -/
def warnings (results : List Result) : List Warning :=
  (results.flatMap (·.warnings)).foldl Warning.insert []

/-- The kind of the first valid result, else the given one. -/
def kindOf (kind : ResultKind) (results : List Result) : ResultKind :=
  ((results.find? (·.isValid)).map (·.kind)).getD kind

/-- Why an entity is left out: the word for its error.  Only a proper error has
    a word; one that counts as nothing is unknown. -/
def reason (error : ErrorKind) : Attempt String :=
  if error.word.isTruthy then error.text else .ok "unknown"

/-- Refuses a result that cannot be taken in: its warnings have to be told
    apart, and its error has to have a word. -/
def vetted (r : Result) : Attempt Unit := do
  if !r.warnings.all (·.reference.isKey) then Attempt.mistyped
  match r.error? with
  | some error =>
    let _ ← reason error
    .ok ()
  | none => .ok ()

/-- Goes through the results in order until one cannot be taken in or added. -/
def checked (sum : Decimal) : List Result → Attempt Unit
  | [] => .ok ()
  | r :: rest => do
    vetted r
    let sum ← total sum [r]
    checked sum rest

def summed (kind : ResultKind) (results : List Result) : Attempt Result := do
  checked .zero results
  let sum ← total .zero results
  let outcome :=
    if results.any (·.isValid) then Outcome.value sum else .invalid .noValidContributions
  .ok ⟨outcome, kindOf kind results, warnings results⟩

/-- The entities that were left out, with the reason. -/
def excluded (entities : List Value) (results : List Result) : List (Value × String) :=
  (entities.zip results).filterMap fun (entity, r) =>
    r.error?.map fun error => (entity, (reason error).toOption.getD "")

def noteExcluded (entities : List Value) (results : List Result) : Log.Recorded Unit := do
  let left := excluded entities results
  if !left.isEmpty then
    Log.event Log.info "services.aggregator" "aggregate_entities_excluded"
      [("excluded", .object (left.foldl (fun members (entity, why) =>
          Value.put members entity.memberName (.text why)) [])),
        ("contributors", .int (results.filter (·.isValid)).length)]

/-- The result over several entities, with a record of those left out. -/
def summedRecorded (kind : ResultKind) (entities : List Value) (results : List Result) :
    Log.Recorded Result := do
  let r ← Log.Recorded.attempt (summed kind results)
  noteExcluded entities results
  return r

/-- The entities without repeats; there has to be one, and each has to be a
    key. -/
def entitiesOf (entities : List Value) : Attempt (List Value) :=
  if !entities.all Value.isKey then Attempt.mistyped
  else if entities.isEmpty then Attempt.refuse .nothingToAggregate
  else .ok (Value.distinct entities)

end KeyFigures.Aggregate
