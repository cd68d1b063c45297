/-
  KeyFigures/Exchange/Failures.lean
  =================================
  **Failures as data.**

  A failure is written as an object with its class and, where it has them, its
  message and code.  It is read from a list of its class and its arguments,
  where lists stand for lists that cannot be changed; the message of a general
  failure is the text of its arguments.

  A scripted computation is given as the result it comes to, or as the failure
  it raises.
-/
import KeyFigures.Exchange.Figures

namespace KeyFigures

namespace Value

mutual

/-- Data with its lists, down to the first that is something else, made
    unchangeable. -/
def fixed : Value → Value
  | .list items => .tuple (fixedItems items)
  | v => v

/-- The items of a list, made unchangeable. -/
def fixedItems : List Value → List Value
  | [] => []
  | v :: rest => v.fixed :: fixedItems rest

end

end Value

namespace Failure

def toData (f : Failure) : Value :=
  .object ([("error", .text f.kind)]
    ++ (f.message?.map fun m => ("message", Value.text m)).toList
    ++ (f.code?.map fun c => ("code", Value.text c)).toList)

def argumentText (arguments : List Value) : String :=
  match arguments with
  | [] => ""
  | [v] => v.display
  | vs => (Value.tuple vs).shown

/-- A circle of formulas as told: the items of the chain have to be texts. -/
def toldCircleOf (id chain maxDepth : Value) : Attempt Failure := do
  let items ← Attempt.ofTyped chain.items?
  let ids ← items.mapM fun item => Attempt.ofTyped item.text?
  .ok (.toldCircle id chain maxDepth (pathSeparator.intercalate ids))

def ofArguments (kind : String) (arguments : List Value) : Attempt Failure :=
  match kind, arguments with
  | "ParseError", [source, reason] => .ok (.toldParse source reason .null)
  | "ParseError", [source, reason, position] => .ok (.toldParse source reason position)
  | "CircularReferenceError", [id, chain] => toldCircleOf id chain .null
  | "CircularReferenceError", [id, chain, depth] => toldCircleOf id chain depth
  | "FormulaNotFoundError", [id] => .ok (.formulaNotFound id)
  | "UnresolvedFormulaReferenceError", [id] => .ok (.unresolvedReference id)
  | "DuplicateFormulaError", [id] => .ok (.reservedId id)
  | "MissingLedgerDataError", [entity, year] => .ok (.missingLedger entity year .null)
  | "MissingLedgerDataError", [entity, year, version] => .ok (.missingLedger entity year version)
  | "FormulaEngineError", rest => .ok (.general .engine (argumentText rest))
  | "FormulaError", rest => .ok (.general .formula (argumentText rest))
  | "LedgerError", rest => .ok (.general .ledger (argumentText rest))
  | "ValueError", rest => .ok (.value (.other (argumentText rest)))
  | "RuntimeError", rest => .ok (.runtime (argumentText rest))
  | _, _ => Attempt.mistyped

def ofData (v : Value) : Attempt Failure :=
  match v with
  | .list (.text kind :: arguments) => ofArguments kind (Value.fixedItems arguments)
  | _ => Attempt.mistyped

end Failure

def Result.ofScript (v : Value) : Attempt Result := do
  match v.get? "raise" with
  | some spec => .error (← Failure.ofData spec)
  | none => Result.ofData v

end KeyFigures
