/-
  KeyFigures/Exchange/Formula.lean
  ================================
  **Formula trees as lists.**

  For exchange with other programs a tree is a list whose first item names the
  kind of node: `ref` and `range` for account references, `const`, `op` with
  its symbol and operands, `group`, and `formula`.  Numbers are texts, so that
  no digit is lost.

  Reading a tree checks account references; an unknown operator symbol is kept
  as it is.  A thing that is no tree is read from `raw`, and null is written
  in its place.
-/
import KeyFigures.Formula.Builder
import KeyFigures.Value.Number

namespace KeyFigures

def Decimal.toData (d : Decimal) : Value := .text d.toText

def AccountReference.toData : AccountReference → Value
  | .starting code => .list [.text "ref", code]
  | .between first last => .list [.text "range", first, last]

namespace Term

def toData : Term → Value
  | .account ref => ref.toData
  | .constant value => .list [.text "const", value.toData]
  | .binary left op right =>
    .list [.text "op", .text (String.singleton op.symbol), left.toData, right.toData]
  | .unsupported left symbol right => .list [.text "op", symbol, left.toData, right.toData]
  | .grouping inner => .list [.text "group", inner.toData]
  | .formula id => .list [.text "formula", id]
  | .foreign _ => .null

/-- An operation with a symbol, known or not. -/
def operation (symbol : Value) (left right : Term) : Term :=
  match symbol.text?.bind Operator.ofSymbol? with
  | some op => .binary left op right
  | none => .unsupported left symbol right

def ofData : Value → Attempt Term
  | .list [.text "ref", code] => (AccountReference.ofCode code).map .account
  | .list [.text "range", first, last] => (AccountReference.ofBounds first last).map .account
  | .list [.text "const", d] => d.toDecimal.map .constant
  | .list [.text "op", symbol, left, right] => do
    let left ← ofData left
    let right ← ofData right
    .ok (operation symbol left right)
  | .list [.text "group", inner] => (ofData inner).map .grouping
  | .list [.text "formula", id] => .ok (.formula id)
  | .list [.text "raw", x] => .ok (.foreign x)
  | _ => Attempt.mistyped

end Term

end KeyFigures
