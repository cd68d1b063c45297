/-
  KeyFigures/Result.lean
  ======================
  **What an evaluation yields.**

  A result is a value or the reason why there is none, together with the kind
  it is displayed as and with warnings about references that matched nothing.
  That a result is valid exactly if it has a value is part of the type.
-/
import KeyFigures.Failure

namespace KeyFigures

/-- How a result is meant to be displayed.  Loosely built requests can carry
    other data. -/
inductive ResultKind where
  | amount
  | percentage
  | ratio
  | other (word : Value)
deriving DecidableEq, Repr, Inhabited

namespace ResultKind

def text? : ResultKind → Option String
  | .amount => some "amount"
  | .percentage => some "percentage"
  | .ratio => some "ratio"
  | .other _ => none

def word : ResultKind → Value
  | .amount => .text "amount"
  | .percentage => .text "percentage"
  | .ratio => .text "ratio"
  | .other word => word

def ofText? : String → Option ResultKind
  | "amount" => some .amount
  | "percentage" => some .percentage
  | "ratio" => some .ratio
  | _ => none

/-- The kind that data names, proper or not. -/
def ofWord (v : Value) : ResultKind := (v.text?.bind ofText?).getD (.other v)

/-- Whether a kind is one of the three proper ones. -/
def IsProper : ResultKind → Prop
  | .other _ => False
  | _ => True

/-- The kind that data names; anything else is refused. -/
def ofValue (v : Value) : Attempt ResultKind :=
  match v.text?.bind ofText? with
  | some kind => .ok kind
  | none => Attempt.refuse (.notAMember "ResultKind" v.shown)

def toValue : ResultKind → Value
  | .amount => .choice ⟨"ResultKind", "AMOUNT", "amount"⟩
  | .percentage => .choice ⟨"ResultKind", "PERCENTAGE", "percentage"⟩
  | .ratio => .choice ⟨"ResultKind", "RATIO", "ratio"⟩
  | .other word => word

end ResultKind

/-- Why a result has no value.  Loosely built results can carry other data. -/
inductive ErrorKind where
  | divisionByZero
  | missingLedgerData
  | noValidContributions
  | other (word : Value)
deriving DecidableEq, Repr, Inhabited

namespace ErrorKind

def word : ErrorKind → Value
  | .divisionByZero => .text "division_by_zero"
  | .missingLedgerData => .text "missing_ledger_data"
  | .noValidContributions => .text "no_valid_contributions"
  | .other word => word

/-- The word for an error kind, which has to be a proper one. -/
def text : ErrorKind → Attempt String
  | .divisionByZero => .ok "division_by_zero"
  | .missingLedgerData => .ok "missing_ledger_data"
  | .noValidContributions => .ok "no_valid_contributions"
  | .other _ => .error .missingAttribute

def ofText? : String → Option ErrorKind
  | "division_by_zero" => some .divisionByZero
  | "missing_ledger_data" => some .missingLedgerData
  | "no_valid_contributions" => some .noValidContributions
  | _ => none

/-- The error kind that data names, proper or not. -/
def ofWord (v : Value) : ErrorKind := (v.text?.bind ofText?).getD (.other v)

end ErrorKind

/-- An account reference, in brackets, that no account of the ledger matches. -/
structure Warning where
  reference : Value
deriving DecidableEq, Repr, Inhabited

namespace Warning

def code : String := "ACCOUNT_RESOLUTION_EMPTY"

def message (w : Warning) : String := "No ledger accounts match " ++ w.reference.display

/-- Adds a warning unless there is one of that reference. -/
def insert (ws : List Warning) (w : Warning) : List Warning :=
  if ws.any (·.reference.same w.reference) then ws else ws ++ [w]

end Warning

/-- A value, or why there is none. -/
inductive Outcome where
  | value (d : Decimal)
  | invalid (error : ErrorKind)
deriving DecidableEq, Repr, Inhabited

/-- The result of an evaluation. -/
structure Result where
  outcome : Outcome
  kind : ResultKind
  warnings : List Warning
deriving DecidableEq, Repr, Inhabited

namespace Result

/-- The value, if there is one. -/
def value? (r : Result) : Option Decimal :=
  match r.outcome with
  | .value d => some d
  | .invalid _ => none

def error? (r : Result) : Option ErrorKind :=
  match r.outcome with
  | .value _ => none
  | .invalid error => some error

def isValid (r : Result) : Bool := r.value?.isSome

def missing (kind : ResultKind) : Result := ⟨.invalid .missingLedgerData, kind, []⟩

/-- A result from its parts, which have to agree: a valid one has a value and
    no error, an invalid one an error and no value. -/
def ofParts (value : Option Decimal) (isValid : Bool) (kind : ResultKind)
    (error : Option ErrorKind) (warnings : List Warning) : Attempt Result :=
  match isValid, value, error with
  | true, some d, none => .ok ⟨.value d, kind, warnings⟩
  | true, _, _ => Attempt.refuse .validWithoutValue
  | false, none, some e => .ok ⟨.invalid e, kind, warnings⟩
  | false, _, _ => Attempt.refuse .invalidWithoutError

end Result

end KeyFigures
