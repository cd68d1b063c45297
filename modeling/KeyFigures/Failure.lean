/-
  KeyFigures/Failure.lean
  =======================
  **What can go wrong, and how it is put into words.**

  A failure is a cause.  `Failure.message` is its wording, `Failure.kind` the
  class it is reported under, `Failure.code` the code of the causes that this
  library defines itself, and `Failure.attributes` what a log record tells of
  it besides.

  Conditions of the data, such as a division by zero in a formula or a missing
  ledger, are no failures of an evaluation: they are results (see `Outcome`).
-/
import KeyFigures.Formula.Term

namespace KeyFigures

open KeyFigures.Text

/-! ### Formula sources -/

/-- Why a formula source cannot be read. -/
inductive ParseReason where
  | emptyFormula
  | emptyReference
  | reversedRange (first last : String)
  | malformedRange (body : String)
  | invalidCode (body : String)
  | unterminatedReference
  | nestedBracket
  | unterminatedFormula
  | invalidFormulaId (id : String)
  | invalidNumber (near : String)
  | unmatchedBracket
  | unknownCharacter (c : Char)
  | unexpectedClose
  | missingOperator
  | trailingOperator
  | trailingOperatorBeforeClose
  | missingClose
  | emptyParentheses
  | tooDeep
  | leadingOperator (op : Operator)
  | unexpectedOperator (op : Operator)
  | accountMissing
  | constantMissing
  | operatorBeforeClose
  | unknownParenthesis (shown : String)
  | formulaIdMissing
  /-- An entry of a term list is malformed. -/
  | malformedEntry (why : String)
deriving DecidableEq, Repr

def maxNesting : Nat := 64

def ParseReason.message : ParseReason → String
  | .emptyFormula => "empty formula"
  | .emptyReference => "empty account reference"
  | .reversedRange first last => "account range start " ++ first ++ " exceeds end " ++ last
  | .malformedRange body => "malformed account range [" ++ body ++ "]"
  | .invalidCode body => "invalid account code [" ++ body ++ "]"
  | .unterminatedReference => "unterminated account reference"
  | .nestedBracket => "nested '[' in account reference"
  | .unterminatedFormula => "unterminated formula reference"
  | .invalidFormulaId id => "invalid formula reference \x7b" ++ id ++ "\x7d"
  | .invalidNumber near => "invalid number near " ++ quoted near
  | .unmatchedBracket => "unmatched ']'"
  | .unknownCharacter c => "unknown operator or character " ++ quoted (String.singleton c)
  | .unexpectedClose => "unbalanced parentheses: unexpected ')'"
  | .missingOperator => "missing operator between operands"
  | .trailingOperator => "trailing operator"
  | .trailingOperatorBeforeClose => "trailing operator before ')'"
  | .missingClose => "unbalanced parentheses: missing ')'"
  | .emptyParentheses => "empty parentheses"
  | .tooDeep => "parentheses nested deeper than " ++ intText maxNesting
  | .leadingOperator op => "leading operator " ++ quoted (String.singleton op.symbol)
  | .unexpectedOperator op => "unexpected operator " ++ quoted (String.singleton op.symbol)
  | .accountMissing => "account term without account"
  | .constantMissing => "constant term without value"
  | .operatorBeforeClose => "operator before ')'"
  | .unknownParenthesis shown => "unknown parenthesis " ++ shown
  | .formulaIdMissing => "formula term without formula id"
  | .malformedEntry why => why

/-- A formula source that cannot be read: the source, the reason, and where in
    the source (or at which entry of a term list) it shows. -/
structure ParseFault where
  source : String
  reason : ParseReason
  position : Option Nat
deriving DecidableEq, Repr

/-- The wording of a fault in a formula source, from its parts. -/
def parseMessage (source reason position : Value) : String :=
  let place := if position.isNull then "" else " at position " ++ position.display
  "Cannot parse formula " ++ source.shown ++ place ++ ": " ++ reason.display

def ParseFault.place (f : ParseFault) : Value := (f.position.map fun p => .int p).getD .null

/-- The wording of a fault in a formula source. -/
def ParseFault.message (f : ParseFault) : String :=
  parseMessage (.text f.source) (.text f.reason.message) f.place

/-! ### Values out of their domain -/

/-- Why parts make no decimal. -/
inductive DecimalParts where
  | count
  | sign
  | coefficient
  | exponent
  | word
deriving DecidableEq, Repr

/-- The wording of a fault in the parts of a decimal. -/
def DecimalParts.message : DecimalParts → String
  | .count => "argument must be a sequence of length 3"
  | .sign => "sign must be an integer with the value 0 or 1"
  | .coefficient => "coefficient must be a tuple of digits"
  | .exponent => "exponent must be an integer"
  | .word => "string argument in the third position must be 'F', 'n' or 'N'"

/-- Why a value is not acceptable where it stands. -/
inductive ValueFault where
  /-- The value is no member of an enumeration. -/
  | notAMember (enumeration shown : String)
  | notAWholeNumber (text : String)
  | tooManyDigits (count : Nat)
  /-- A whole number is asked for, and the double is no number. -/
  | undefinedNumber
  /-- The parts of a decimal do not fit together. -/
  | decimalParts (fault : DecimalParts)
  | unknownLevel (shown : String)
  | emptyAccountCode
  | emptyRangeBound
  | unsupportedOperator (shown : String)
  | unknownTermType (shown : String)
  | validWithoutValue
  | invalidWithoutError
  | belowOne (field shown : String)
  | notPositive (field shown : String)
  | unknownSettings (names : List String)
  | formulaBody (id : String)
  | formulaSource (id why : String)
  | formulaKind (id shown : String)
  | formulaCategory (id shown : String)
  | duplicateStandardFormula (id : String)
  | sourceNotUnique
  | noEntity
  | emptyYearRange (first last : Value)
  | severalYears (shape : String) (first last : Value)
  | yearsMissing (count : Nat)
  | yearsSuperfluous
  | severalEntities
  | nothingToAggregate
  | yearsReversed (first last : Value)
  | other (why : String)
deriving DecidableEq, Repr

/-- The most digits a whole number may be written with where it is read. -/
def maxIntDigits : Nat := 4300

def ValueFault.message : ValueFault → String
  | .notAMember enumeration shown => shown ++ " is not a valid " ++ enumeration
  | .notAWholeNumber text =>
    "invalid literal for int() with base 10: " ++ String.ofList ((quotedChars text.toList).take 200)
  | .undefinedNumber => "cannot convert float NaN to integer"
  | .decimalParts fault => fault.message
  | .unknownLevel shown => "Unknown level: " ++ shown
  | .tooManyDigits count =>
    "Exceeds the limit (" ++ intText maxIntDigits ++ " digits) for integer string conversion: value has "
      ++ intText count ++ " digits; use sys.set_int_max_str_digits() to increase the limit"
  | .emptyAccountCode => "Account reference code cannot be empty"
  | .emptyRangeBound => "Account range bounds cannot be empty"
  | .unsupportedOperator shown => "Unsupported operator: " ++ shown
  | .unknownTermType shown => "Unknown formula term type: " ++ shown
  | .validWithoutValue => "A valid result needs a value and no error"
  | .invalidWithoutError => "An invalid result needs an error and no value"
  | .belowOne field shown => field ++ " must be >= 1, got " ++ shown
  | .notPositive field shown => field ++ " must be > 0, got " ++ shown
  | .unknownSettings names => "Unknown engine settings: " ++ ", ".intercalate names
  | .formulaBody id => "Formula " ++ id ++ " needs exactly one of 'expression' or 'terms'"
  | .formulaSource id why => "Formula " ++ id ++ ": " ++ why
  | .formulaKind id shown => "Formula " ++ id ++ ": unknown result_kind " ++ shown
  | .formulaCategory id shown => "Formula " ++ id ++ ": unknown category " ++ shown
  | .duplicateStandardFormula id => "Duplicate standard formula id: " ++ id
  | .sourceNotUnique => "FormulaSource needs exactly one of formula_id or source"
  | .noEntity => "EvaluationRequest needs at least one entity"
  | .emptyYearRange first last =>
    "fiscal year range " ++ first.display ++ ".." ++ last.display ++ " is empty"
  | .severalYears shape first last =>
    "a " ++ shape ++ " request covers one fiscal year, got " ++ first.display ++ ".." ++ last.display
  | .yearsMissing count => "not enough values to unpack (expected 2, got " ++ intText count ++ ")"
  | .yearsSuperfluous => "too many values to unpack (expected 2)"
  | .severalEntities => "a single request covers one entity"
  | .nothingToAggregate => "aggregate needs at least one entity"
  | .yearsReversed first last =>
    "end_year " ++ last.display ++ " is before start_year " ++ first.display
  | .other why => why

/-! ### Things of the wrong sort -/

/-- Why a thing cannot be used the way it is. -/
inductive MisuseFault where
  | notATerm (shown : String)
  | notAReference (shown : String)
  | readOnlyLibrary
  | noUserStore
  | notSerializable (typeName : String)
  /-- Data of another type than the operation takes. -/
  | mistyped
deriving DecidableEq, Repr

/-- The wording of a misuse; mere type mismatches have none. -/
def MisuseFault.message? : MisuseFault → Option String
  | .notATerm shown => some ("Not a formula term: " ++ shown)
  | .notAReference shown => some ("Not an account reference: " ++ shown)
  | .readOnlyLibrary => some "The standard formula library is read-only"
  | .noUserStore => some "No user formula store configured"
  | .notSerializable typeName => some ("Object of type " ++ typeName ++ " is not JSON serializable")
  | .mistyped => none

/-! ### Numbers and times out of range -/

/-- A number that is too large for its place. -/
inductive RangeFault where
  | double
  | infiniteWhole
  /-- A whole number of more than sixty-four bits for a column. -/
  | column
deriving DecidableEq, Repr

def RangeFault.message : RangeFault → String
  | .double => "int too large to convert to float"
  | .infiniteWhole => "cannot convert float infinity to integer"
  | .column => "Python int too large to convert to SQLite INTEGER"

/-- Whether a fault of time is one of size, not of form. -/
def TimeFault.isRange : TimeFault → Bool
  | .beyondCalendar | .spanDays _ | .hugeSpan | .infiniteSpan => true
  | _ => false

def TimeFault.message : TimeFault → String
  | .unreadable text => "Invalid isoformat string: " ++ quoted text
  | .year number => "year " ++ intText number ++ " is out of range"
  | .month => "month must be in 1..12"
  | .day => "day is out of range for month"
  | .hour => "hour must be in 0..23"
  | .minute => "minute must be in 0..59"
  | .second => "second must be in 0..59"
  | .offset micros =>
    "offset must be a timedelta strictly between -timedelta(hours=24) and timedelta(hours=24), not "
      ++ spanShown micros ++ "."
  | .beyondCalendar => "date value out of range"
  | .spanDays days => "days=" ++ intText days ++ "; must have magnitude <= " ++ intText Moment.maxSpanDays
  | .hugeSpan => "Python int too large to convert to C int"
  | .infiniteSpan => "cannot convert float infinity to integer"
  | .undefinedSpan => "cannot convert float NaN to integer"

/-! ### Failures -/

/-- The families of failures that this library defines. -/
inductive Family where
  | engine
  | formula
  | ledger
deriving DecidableEq, Repr

/-- The cause of a failure. -/
inductive Failure where
  | parse (fault : ParseFault)
  /-- A formula refers to itself along `chain`, or references nest deeper than
      `maxDepth`. -/
  | circularReference (id : String) (chain : List String) (maxDepth : Option Value)
  | formulaNotFound (id : Value)
  /-- A formula reference was met that had not been expanded. -/
  | unresolvedReference (id : Value)
  /-- The id belongs to the standard library. -/
  | reservedId (id : Value)
  /-- There is no ledger of that entity, year and version. -/
  | missingLedger (entity year version : Value)
  /-- A formula source cannot be read, as told by others. -/
  | toldParse (source reason position : Value)
  /-- Formulas refer to each other in a circle, as told by others; `path` is
      the text of the chain. -/
  | toldCircle (id chain maxDepth : Value) (path : String)
  /-- A failure of a family that is known by its message only. -/
  | general (family : Family) (message : String)
  | number (fault : Decimal.Fault)
  | value (fault : ValueFault)
  | time (fault : TimeFault)
  | range (fault : RangeFault)
  | missingKey (shown : String)
  | missingItem
  | misuse (fault : MisuseFault)
  /-- A thing lacks the property asked of it. -/
  | missingAttribute
  /-- A row breaks a rule of its table. -/
  | refusedRow
  /-- Data of a type that no column holds. -/
  | unstorable
  /-- A number that a column cannot be given. -/
  | unconvertible
  /-- The tables of the database do not exist. -/
  | noTables
  /-- An operation was called at the wrong time. -/
  | runtime (message : String)
deriving DecidableEq, Repr

namespace Failure

def kind : Failure → String
  | .parse _ | .toldParse .. => "ParseError"
  | .circularReference .. | .toldCircle .. => "CircularReferenceError"
  | .formulaNotFound _ => "FormulaNotFoundError"
  | .unresolvedReference _ => "UnresolvedFormulaReferenceError"
  | .reservedId _ => "DuplicateFormulaError"
  | .missingLedger .. => "MissingLedgerDataError"
  | .general .engine _ => "FormulaEngineError"
  | .general .formula _ => "FormulaError"
  | .general .ledger _ => "LedgerError"
  | .number .notANumber | .number .invalid => "InvalidOperation"
  | .number .overflow => "Overflow"
  | .number .divisionByZero => "DivisionByZero"
  | .value _ => "ValueError"
  | .time fault => if fault.isRange then "OverflowError" else "ValueError"
  | .range _ => "OverflowError"
  | .missingKey _ => "KeyError"
  | .missingItem => "IndexError"
  | .misuse _ => "TypeError"
  | .missingAttribute => "AttributeError"
  | .refusedRow => "IntegrityError"
  | .unstorable => "ProgrammingError"
  | .unconvertible => "StatementError"
  | .noTables => "OperationalError"
  | .runtime _ => "RuntimeError"

/-- The family of a failure that this library defines. -/
def family? : Failure → Option Family
  | .parse _ | .toldParse .. | .circularReference .. | .toldCircle .. | .formulaNotFound _
  | .unresolvedReference _ | .reservedId _ => some .formula
  | .missingLedger .. => some .ledger
  | .general family _ => some family
  | _ => none

/-- The classes a failure belongs to, the narrowest first. -/
def lineage (f : Failure) : List String :=
  let broader := match f.family? with
    | some .engine => ["FormulaEngineError"]
    | some .formula => ["FormulaError", "FormulaEngineError"]
    | some .ledger => ["LedgerError", "FormulaEngineError"]
    | none => []
  if broader.head? = some f.kind then broader else f.kind :: broader

/-- The code of a failure that this library defines. -/
def code? : Failure → Option String
  | .parse _ | .toldParse .. => some "PARSE_ERROR"
  | .circularReference .. | .toldCircle .. => some "CIRCULAR_REFERENCE"
  | .formulaNotFound _ => some "FORMULA_NOT_FOUND"
  | .unresolvedReference _ => some "UNRESOLVED_FORMULA_REFERENCE"
  | .reservedId _ => some "DUPLICATE_FORMULA"
  | .missingLedger .. => some "MISSING_LEDGER_DATA"
  | .general .engine _ => some "FORMULA_ENGINE_ERROR"
  | .general .formula _ => some "FORMULA_ERROR"
  | .general .ledger _ => some "LEDGER_ERROR"
  | _ => none

def pathSeparator : String := " -> "

def circleMessage (id path : String) (maxDepth : Value) : String :=
  if maxDepth.isNull then "Circular formula reference at " ++ id ++ ": " ++ path
  else
    "Formula reference depth exceeds " ++ maxDepth.display ++ " resolving " ++ id ++ ": " ++ path

/-- The wording of a failure, where it has one. -/
def message? : Failure → Option String
  | .parse fault => some fault.message
  | .toldParse source reason position => some (parseMessage source reason position)
  | .circularReference id chain maxDepth =>
    some (circleMessage id (pathSeparator.intercalate chain) (maxDepth.getD .null))
  | .toldCircle id _ maxDepth path => some (circleMessage id.display path maxDepth)
  | .formulaNotFound id => some ("Formula not found: " ++ id.display)
  | .unresolvedReference id =>
    some ("Formula reference \x7b" ++ id.display ++
      "\x7d must be resolved by the formula registry before evaluation")
  | .reservedId id => some ("Formula id is reserved by the standard library: " ++ id.display)
  | .missingLedger entity year version =>
    let suffix := if version.isNull then "" else " (version " ++ version.display ++ ")"
    some ("No ledger data for entity " ++ entity.display ++ ", fiscal year " ++ year.display ++ suffix)
  | .general _ message => some message
  | .number .notANumber => some "[<class 'decimal.ConversionSyntax'>]"
  | .number .invalid => some "[<class 'decimal.InvalidOperation'>]"
  | .number .overflow => some "[<class 'decimal.Overflow'>]"
  | .number .divisionByZero => some "[<class 'decimal.DivisionByZero'>]"
  | .value fault => some fault.message
  | .time fault => some fault.message
  | .range fault => some fault.message
  | .missingKey shown => some shown
  | .misuse fault => fault.message?
  | .missingItem | .missingAttribute | .refusedRow | .unstorable | .unconvertible
  | .noTables => none
  | .runtime message => some message

/-- The wording of a failure, empty where it has none. -/
def message (f : Failure) : String := f.message?.getD ""

/-- What a failure holds, by name. -/
def attributes : Failure → List (String × Value)
  | .parse fault =>
    [("source", .text fault.source), ("reason", .text fault.reason.message), ("position", fault.place)]
  | .toldParse source reason position =>
    [("source", source), ("reason", reason), ("position", position)]
  | .circularReference id chain maxDepth =>
    [("formula_id", .text id), ("chain", .tuple (chain.map .text)),
      ("max_depth", maxDepth.getD .null)]
  | .toldCircle id chain maxDepth _ =>
    [("formula_id", id), ("chain", chain), ("max_depth", maxDepth)]
  | .formulaNotFound id | .unresolvedReference id | .reservedId id => [("formula_id", id)]
  | .missingLedger entity year version =>
    [("entity_id", entity), ("fiscal_year", year), ("version", version)]
  | _ => []

/-- Whether the failure says that a ledger is missing. -/
def isMissingLedger : Failure → Bool
  | .missingLedger .. => true
  | _ => false

end Failure

abbrev Attempt := Except Failure

namespace Attempt

def ofDecimal {α : Type} : Except Decimal.Fault α → Attempt α
  | .ok a => .ok a
  | .error fault => .error (.number fault)

/-- A reading of a text or of a clock as an attempt. -/
def ofTime {α : Type} : Except TimeFault α → Attempt α
  | .ok a => .ok a
  | .error fault => .error (.time fault)

def refuse {α : Type} (fault : ValueFault) : Attempt α := .error (.value fault)

/-- A failed attempt on data of the wrong type. -/
def mistyped {α : Type} : Attempt α := .error (.misuse .mistyped)

/-- What is there, or a failed attempt on data of the wrong type. -/
def ofTyped {α : Type} : Option α → Attempt α
  | some a => .ok a
  | none => mistyped

theorem bind_eq_ok {α β : Type} {x : Attempt α} {next : α → Attempt β} {b : β} :
    x >>= next = .ok b ↔ ∃ a, x = .ok a ∧ next a = .ok b := by
  cases x <;> simp [bind, Except.bind]

theorem bind_eq_error {α β : Type} {x : Attempt α} {next : α → Attempt β} {f : Failure} :
    x >>= next = .error f ↔ x = .error f ∨ ∃ a, x = .ok a ∧ next a = .error f := by
  cases x <;> simp [bind, Except.bind]

end Attempt

end KeyFigures
