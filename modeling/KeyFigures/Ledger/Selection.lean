/-
  KeyFigures/Ledger/Selection.lean
  ================================
  **Which balances an account reference selects, and their sum.**

  A code selects the accounts whose number begins with it, read as text.  A
  range selects the accounts whose whole number, read as a number, lies between
  its bounds; a number with anything but digits is in no range.  No account at
  all is no failure: the sum is zero, and the count tells.
-/
import KeyFigures.Ledger.Basic
import KeyFigures.Text.WholeNumber
import KeyFigures.Decimal.Arithmetic

namespace KeyFigures

open KeyFigures.Text

/-- Whether a range selects an account number. -/
def inRange (first last : Value) (account : String) : Attempt Bool :=
  let number := strip account.toList
  if number.isEmpty || !number.all isDigitLike then .ok false
  else do
    let low ← first.toWhole
    let n ← (Value.text (String.ofList number)).toWhole
    if low ≤ n then
      let high ← last.toWhole
      .ok (decide (n ≤ high))
    else .ok false

def AccountReference.selects (ref : AccountReference) (account : String) : Attempt Bool :=
  match ref with
  | .starting (.text code) => .ok (code.toList.isPrefixOf account.toList)
  | .starting _ => Attempt.mistyped
  | .between first last => inRange first last account

/-- The sum of the selected balances and their number. -/
structure Selection where
  total : Decimal
  count : Nat
deriving DecidableEq, Repr, Inhabited

def Selection.empty : Selection := ⟨.zero, 0⟩

def Selection.isEmpty (s : Selection) : Bool := s.count == 0

/-- Adds a balance to a selection if the reference selects its account. -/
def AccountReference.collect (ref : AccountReference) (s : Selection) (b : AccountBalance) :
    Attempt Selection := do
  if ← ref.selects b.number then
    let total ← Attempt.ofDecimal (s.total.add b.balance)
    .ok ⟨total, s.count + 1⟩
  else .ok s

/-- The selection of a reference among the balances, in their order. -/
def AccountReference.resolve (ref : AccountReference) (balances : List AccountBalance) :
    Attempt Selection :=
  balances.foldlM ref.collect .empty

end KeyFigures
