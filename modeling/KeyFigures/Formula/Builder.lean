/-
  KeyFigures/Formula/Builder.lean
  ===============================
  **Formulas as lists of builder entries.**

  A form for building formulas hands over a list of entries instead of text.
  Each entry is an account, a number, a parenthesis or another formula, and
  carries the operator that joins it to the entry before.  Positions in
  failures are indexes of entries, and the text they show is the entries'
  descriptions with blanks between them.
-/
import KeyFigures.Formula.Parse

namespace KeyFigures

/-! ### Entries -/

inductive EntryType where
  | account
  | constant
  | parenthesis
  | formula
deriving DecidableEq, Repr

/-- One entry of a term list. -/
structure Entry where
  type : EntryType
  operator : Option Operator
  account : Option String
  constant : Option Decimal
  /-- `open` or `close`; anything else is refused later. -/
  parenthesis : Value
  formula : Value

/-- The entry type that a value names; `variable` is another word for a
    formula. -/
def EntryType.ofValue? : Value → Option EntryType
  | .text "account" => some .account
  | .text "constant" => some .constant
  | .text "parenthesis" => some .parenthesis
  | .text "formula" => some .formula
  | .text "variable" => some .formula
  | _ => none

def Operator.ofValue (v : Value) : Attempt Operator :=
  match v.text?.bind Operator.ofSymbol? with
  | some op => .ok op
  | none => Attempt.refuse (.notAMember "Operator" v.shown)

/-- The operator that a value names, if it names anything. -/
def readOperator (v : Value) : Attempt (Option Operator) :=
  if v.isTruthy then (Operator.ofValue v).map some else .ok none

/-- Reads an entry; anything but an object is of the wrong type. -/
def Entry.ofValue (v : Value) : Attempt Entry :=
  match v with
  | .object _ =>
    match EntryType.ofValue? (v.getD "type") with
    | none => Attempt.refuse (.unknownTermType (v.getD "type").shown)
    | some type => do
      let operator ← readOperator (v.getD "operator")
      let account := if (v.getD "account").isNull then none else some (v.getD "account").display
      let constant ← match v.getD "constant" with
        | .null => .ok none
        | c => (Attempt.ofDecimal (Decimal.ofText c.display)).map some
      let formula := if (v.getD "formula_id").isTruthy then v.getD "formula_id" else v.getD "variable"
      .ok ⟨type, operator, account, constant, v.getD "parenthesis", formula⟩
  | _ => .error (.misuse .mistyped)

/-- An entry as the text of a formula would have it. -/
def Entry.describe (e : Entry) : String :=
  let sign := match e.operator with
    | some op => String.ofList [op.symbol, ' ']
    | none => ""
  sign ++ match e.type with
    | .account => "[" ++ e.account.getD "None" ++ "]"
    | .constant => (e.constant.map Decimal.toText).getD "None"
    | .parenthesis => if e.parenthesis.text? = some "open" then "(" else ")"
    | .formula => "\x7b" ++ e.formula.display ++ "\x7d"

/-- Entries as the text of a formula would have them. -/
def describeEntries (entries : List Entry) : String := " ".intercalate (entries.map Entry.describe)

/-! ### Tokens of a term list -/

/-- The token that an entry stands for, apart from its operator. -/
def Entry.token (source : String) (index : Nat) (e : Entry) : Attempt Token :=
  let refuse (reason : ParseReason) : Attempt Token := .error (.parse ⟨source, reason, some index⟩)
  match e.type with
  | .account =>
    match e.account with
    | none => refuse .accountMissing
    | some account => (AccountReference.parse account source index).map .account
  | .constant =>
    match e.constant with
    | none => refuse .constantMissing
    | some value => .ok (.number value)
  | .parenthesis =>
    match e.parenthesis.text? with
    | some "open" => .ok .opening
    | some "close" => if e.operator.isSome then refuse .operatorBeforeClose else .ok .closing
    | _ => refuse (.unknownParenthesis e.parenthesis.shown)
  | .formula =>
    if e.formula.isTruthy then .ok (.formula e.formula) else refuse .formulaIdMissing

/-- The tokens of an entry: its operator, if it has one, and its own. -/
def Entry.tokens (source : String) (index : Nat) (e : Entry) : Attempt (List Placed) := do
  let token ← e.token source index
  .ok ((e.operator.map fun op => ⟨.operator op, index⟩).toList ++ [⟨token, index⟩])

/-- The tokens of the entries from `index` on. -/
def entryTokens (source : String) (index : Nat) : List Entry → Attempt (List Placed)
  | [] => .ok []
  | e :: rest => do
    let ts ← e.tokens source index
    let more ← entryTokens source (index + 1) rest
    .ok (ts ++ more)

def parseEntries (entries : List Entry) : Attempt Term := do
  let source := describeEntries entries
  let ts ← entryTokens source 0 entries
  parseTokens source ts

/-- Reads entries from data; a malformed entry is a fault of the whole list. -/
def readEntries (items : List Value) : Attempt (List Entry) :=
  match items.mapM Entry.ofValue with
  | .ok entries => .ok entries
  | .error (.misuse fault) => .error (.misuse fault)
  | .error f => .error (.parse ⟨(Value.list items).shown, .malformedEntry f.message, none⟩)

/-! ### Formula sources -/

/-- The tree of a formula source: formula text, or a list of entries. -/
def parseSource (source : Value) : Attempt Term :=
  match source with
  | .text s => parseText s
  | v =>
    match v.items? with
    | none => .error (.misuse .mistyped)
    | some items => do
      let entries ← readEntries items
      parseEntries entries

end KeyFigures
