/-
  KeyFigures/Evaluation.lean
  ==========================
  **The value of a formula on a ledger.**

  A tree is evaluated from left to right.  A reference that matches nothing
  contributes zero and leaves a warning, one for each bracket text.  Dividing
  by zero stops the walk; the result is then invalid and keeps the warnings
  met so far.  The result kind is carried along and never enters arithmetic.

  While tracing is on, every evaluation records a fingerprint of its inputs.
-/
import KeyFigures.Ledger.Selection
import KeyFigures.Result
import KeyFigures.Formula.Fingerprint
import KeyFigures.Log.Journal

namespace KeyFigures

/-! ### The walk -/

/-- Why a walk ends early. -/
inductive Stop where
  | divisionByZero
  | failed (cause : Failure)
deriving Repr

/-- A step of the walk: it may add warnings, and it may stop. -/
abbrev Walk := ExceptT Stop (StateM (List Warning))

def Walk.attempt {α : Type} (a : Attempt α) : Walk α := fun ws =>
  match a with
  | .ok x => (.ok x, ws)
  | .error cause => (.error (.failed cause), ws)

def Operator.apply (op : Operator) (x y : Decimal) : Except Stop Decimal :=
  let computed (r : Except Decimal.Fault Decimal) : Except Stop Decimal :=
    r.mapError fun fault => .failed (.number fault)
  match op with
  | .add => computed (x.add y)
  | .sub => computed (x.sub y)
  | .mul => computed (x.mul y)
  | .div =>
    match y.equalValue .zero with
    | .error fault => .error (.failed (.number fault))
    | .ok true => .error .divisionByZero
    | .ok false => computed (x.div y)

/-- The sum of the balances that a reference selects; a warning if there are
    none. -/
def AccountReference.value (balances : List AccountBalance) (ref : AccountReference) :
    Walk Decimal := do
  let selection ← Walk.attempt (ref.resolve balances)
  if selection.isEmpty then modify fun ws => Warning.insert ws ⟨.text ref.bracketed⟩
  return selection.total

def Term.value (balances : List AccountBalance) : Term → Walk Decimal
  | .account ref => ref.value balances
  | .constant value => pure value
  | .grouping inner => inner.value balances
  | .binary left op right => do
    let x ← left.value balances
    let y ← right.value balances
    ExceptT.mk (pure (op.apply x y))
  | .formula id => throw (.failed (.unresolvedReference id))
  | .unsupported left symbol right => do
    let _ ← left.value balances
    let _ ← right.value balances
    throw (.failed (.value (.unsupportedOperator symbol.shown)))
  | .foreign thing => throw (.failed (.misuse (.notATerm thing.shown)))

def Term.result (t : Term) (balances : List AccountBalance) (kind : ResultKind) : Attempt Result :=
  match (t.value balances).run [] with
  | (.ok d, warnings) => .ok ⟨.value d, kind, warnings⟩
  | (.error .divisionByZero, warnings) => .ok ⟨.invalid .divisionByZero, kind, warnings⟩
  | (.error (.failed cause), _) => .error cause

/-! ### Tracing -/

mutual

/-- An input as it enters a fingerprint: trees by their structure, scalars as
    they are, other data by its text. -/
def fingerprintValue : Value → Attempt Value
  | .record typeName fields => (Term.ofRecord (.record typeName fields)).payload
  | .list items | .tuple items => do
    let parts ← fingerprintItems items
    .ok (.list parts)
  | .null => .ok .null
  | .bool b => .ok (.bool b)
  | .int n => .ok (.int n)
  | .float x => .ok (.float x)
  | .text s => .ok (.text s)
  | .choice c => .ok (.text c.text)
  | .decimal d => .ok (.text (Value.decimal d).display)
  | .moment m => .ok (.text (Value.moment m).display)
  | .day d => .ok (.text (Value.day d).display)
  | .set items => .ok (.text (Value.set items).display)
  | .object members => .ok (.text (Value.object members).display)

/-- The items of a list as they enter a fingerprint. -/
def fingerprintItems : List Value → Attempt (List Value)
  | [] => .ok []
  | v :: rest => do
    let part ← fingerprintValue v
    let parts ← fingerprintItems rest
    .ok (part :: parts)

end

/-- How many digits of the digest make a fingerprint. -/
def fingerprintLength : Nat := 16

/-- The fingerprint of the named inputs; an absent one counts as null. -/
def inputFingerprint (names : List String) (inputs : List (String × Value)) : Attempt String := do
  let members ← names.mapM fun name => do
    let v ← fingerprintValue ((Value.lookup? inputs name).getD .null)
    .ok (name, v)
  let digest ← (Value.object (members.foldl (fun m e => Value.put m e.1 e.2) [])).digest
  .ok (String.ofList (digest.toList.take fingerprintLength))

/-- The fingerprint of an evaluation: of its tree and result kind. -/
def evaluationFingerprint (t : Term) (kind : ResultKind) : Attempt String :=
  inputFingerprint ["ast", "result_kind"] [("ast", t.toRecord), ("result_kind", kind.toValue)]

def evaluationLogger : String := "engines.evaluator"

def noteResult (r : Result) : Log.Recorded Unit := do
  if r.isValid then
    if !r.warnings.isEmpty then
      Log.event Log.info evaluationLogger "account_references_unmatched"
        [("references", .list (r.warnings.map (·.reference)))]
  else
    Log.event Log.debug evaluationLogger "evaluation_division_by_zero" []

def noteTrace (fingerprint : String) (r : Result) : Log.Recorded Unit :=
  Log.event Log.debug "engines.tracer" "FORMULA_ENGINE_TRACE"
    [("trace_type", .text "FORMULA_ENGINE_TRACE"), ("engine_name", .text "formula_evaluator"),
      ("engine_version", .text "1.0"), ("input_fingerprint", .text fingerprint),
      ("is_valid", .bool r.isValid), ("error", (r.error?.map (·.word)).getD .null),
      ("warning_count", .int r.warnings.length)]

/-- Evaluates a tree on a ledger; while details are recorded, the inputs are
    fingerprinted first. -/
def evaluate (t : Term) (balances : List AccountBalance) (kind : ResultKind) :
    Log.Recorded Result := do
  if ← Log.isEnabled Log.debug then
    let fingerprint ← Log.Recorded.attempt (evaluationFingerprint t kind)
    let r ← Log.Recorded.attempt (t.result balances kind)
    noteResult r
    noteTrace fingerprint r
    return r
  else
    let r ← Log.Recorded.attempt (t.result balances kind)
    noteResult r
    return r

end KeyFigures
