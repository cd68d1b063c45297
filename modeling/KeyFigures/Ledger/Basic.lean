/-
  KeyFigures/Ledger/Basic.lean
  ============================
  **Ledgers: closing balances by account.**

  A ledger lists the closing balances of one entity's accounts for a fiscal
  year, in the order in which they were handed over; an account may occur more
  than once.  The version names an upload and is compared for equality only.
-/
import KeyFigures.Failure

namespace KeyFigures

/-- The closing balance of an account. -/
structure AccountBalance where
  number : String
  balance : Decimal
deriving DecidableEq, Repr, Inhabited

/-- The balances of an entity for a fiscal year, as uploaded under a version. -/
structure Ledger where
  entity : Value
  year : Value
  version : Value
  balances : List AccountBalance
deriving DecidableEq, Repr, Inhabited

/-- The balance of an account from loose data: both are taken by their text. -/
def AccountBalance.ofValues (number balance : Value) : Attempt AccountBalance := do
  let d ← Attempt.ofDecimal (Decimal.ofText balance.display)
  .ok ⟨number.display, d⟩

/-- Sets the value of a key: a known key keeps its place and its spelling. -/
def putKey (entries : List (Value × Value)) (key v : Value) : List (Value × Value) :=
  if entries.any (·.1.same key) then
    entries.map fun e => if e.1.same key then (e.1, v) else e
  else entries ++ [(key, v)]

/-- Balances by account: a later value of an account replaces the earlier one. -/
def balancesOfMapping (entries : List (Value × Value)) : Attempt (List AccountBalance) := do
  if entries.all (·.1.isKey) then
    (entries.foldl (fun m e => putKey m e.1 e.2) []).mapM fun e => AccountBalance.ofValues e.1 e.2
  else Attempt.mistyped

def balancesOfRows (rows : List (Value × Value)) : Attempt (List AccountBalance) :=
  rows.mapM fun e => AccountBalance.ofValues e.1 e.2

end KeyFigures
