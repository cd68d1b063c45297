/-
  KeyFigures/Database/Balances.lean
  =================================
  **Stored closing balances and the ledgers read from them.**

  A balance row belongs to a client, a fiscal year and possibly an upload
  version.  A ledger is read from the rows of one client and year: either row
  by row in the order of the account numbers, or summed by the numbers of the
  standard chart that the client's accounts are mapped to.  Rows without a
  mapping are left out of the sums and counted.

  A balance is kept as the nearest double and read with nine places.
-/
import KeyFigures.Database.Column
import KeyFigures.Ledger.Basic
import KeyFigures.Binary.Written
import KeyFigures.Decimal.Arithmetic
import KeyFigures.Log.Journal

namespace KeyFigures.Database

/-! ### Rows -/

def balancePlaces : Nat := 9

/-- The balance read back after `d` was stored; no number at all cannot be
    stored.  A stored zero has no sign. -/
def storedBalance (d : Decimal) : Attempt Decimal :=
  if d.isNan then .error .refusedRow
  else
    let x := Binary.ofDecimal d
    let x := if x == 0.0 then 0.0 else x
    Attempt.ofDecimal (Decimal.ofText (Binary.fixed balancePlaces x))

/-- The closing balance of an account in an upload. -/
structure BalanceRow where
  client : String
  year : Value
  version : Option String
  account : String
  balance : Decimal
deriving DecidableEq, Repr, Inhabited

/-- The row that the columns make of data; only the version may be null. -/
def BalanceRow.ofValues (client year version account : Value) (balance : Decimal) :
    Attempt BalanceRow := do
  let client ← textCell client
  let year ← numberCell year
  let version ← textCell version
  let account ← textCell account
  let balance ← storedBalance balance
  match client, account with
  | some client, some account =>
    if year.isNull then .error .refusedRow else .ok ⟨client, year, version, account, balance⟩
  | _, _ => .error .refusedRow

/-- The short description of a row that is not stored yet. -/
def describeRow (client year account : Value) (balance : Decimal) : String :=
  "<TrialBalanceRow " ++ client.display ++ " " ++ year.display ++ " " ++ account.display ++ "="
    ++ balance.toText ++ ">"

/-- Whether two rows claim the same account of the same versioned upload. -/
def BalanceRow.clashes (a b : BalanceRow) : Bool :=
  a.version.isSome && a.version == b.version && a.client == b.client && a.year.same b.year
    && a.account == b.account

/-- The standard number that an account of a client is mapped to. -/
structure AccountMapping where
  client : String
  account : String
  standard : String
deriving DecidableEq, Repr, Inhabited

/-- The mapping that the columns make of data; nothing may be null. -/
def AccountMapping.ofValues (client account standard : Value) : Attempt AccountMapping := do
  let client ← textCell client
  let account ← textCell account
  let standard ← textCell standard
  match client, account, standard with
  | some client, some account, some standard => .ok ⟨client, account, standard⟩
  | _, _, _ => .error .refusedRow

def AccountMapping.clashes (a b : AccountMapping) : Bool :=
  a.client == b.client && a.account == b.account

/-! ### Ledgers -/

/-- The version that rows are asked for. -/
inductive VersionFilter where
  | all
  | only (version : Option String)
deriving DecidableEq, Repr

/-- Whether the version of a row passes; nothing passes for a version that
    became null. -/
def VersionFilter.passes (f : VersionFilter) (version : Option String) : Bool :=
  match f with
  | .all => true
  | .only wanted => wanted.isSome && version == wanted

/-- What rows are asked for: a client and a year, which may have become null,
    and a version. -/
structure Selector where
  client : Option String
  year : Value
  version : VersionFilter
deriving DecidableEq, Repr

/-- The selector that the columns make of data; a null version asks for all. -/
def Selector.ofValues (client year version : Value) : Attempt Selector := do
  let client ← textCell client
  let year ← numberCell year
  let version ←
    if version.isNull then .ok VersionFilter.all else (textCell version).map VersionFilter.only
  .ok ⟨client, year, version⟩

def Selector.selects (s : Selector) (r : BalanceRow) : Bool :=
  some r.client == s.client && r.year.same s.year && s.version.passes r.version

/-- The selected rows in the order of the account numbers. -/
def selectedRows (rows : List BalanceRow) (s : Selector) : List BalanceRow :=
  (rows.filter s.selects).mergeSort fun a b => decide (a.account ≤ b.account)

def standardNumber? (mappings : List AccountMapping) (r : BalanceRow) : Option String :=
  (mappings.find? fun m => m.client == r.client && m.account == r.account).map (·.standard)

/-- Adds an amount to the sum of a number. -/
def addToSum (sums : List AccountBalance) (number : String) (amount : Decimal) :
    Attempt (List AccountBalance) :=
  match sums with
  | [] => do
    let total ← Attempt.ofDecimal (Decimal.zero.add amount)
    .ok [⟨number, total⟩]
  | s :: rest =>
    if s.number == number then do
      let total ← Attempt.ofDecimal (s.balance.add amount)
      .ok (⟨number, total⟩ :: rest)
    else do
      let sums ← addToSum rest number amount
      .ok (s :: sums)

/-- The sums of the mapped rows by standard number, in the order of the
    numbers. -/
def sumsByNumber (mappings : List AccountMapping) (rows : List BalanceRow) :
    Attempt (List AccountBalance) := do
  let sums ← rows.foldlM (fun sums r =>
    match standardNumber? mappings r with
    | some number => addToSum sums number r.balance
    | none => .ok sums) []
  .ok (sums.mergeSort fun a b => decide (a.number ≤ b.number))

def unmappedCount (mappings : List AccountMapping) (rows : List BalanceRow) : Nat :=
  (rows.filter fun r => (standardNumber? mappings r).isNone).length

/-- The balances of selected rows, as they are or by standard number. -/
def balancesOf (mappings : List AccountMapping) (rows : List BalanceRow)
    (standardMapping : Bool) : Attempt (List AccountBalance) :=
  if standardMapping then sumsByNumber mappings rows
  else .ok (rows.map fun r => ⟨r.account, r.balance⟩)

/-- What a ledger is asked for, as given. -/
structure LedgerKey where
  client : Value
  year : Value
  version : Value
deriving DecidableEq, Repr, Inhabited

def LedgerKey.selector (k : LedgerKey) : Attempt Selector :=
  Selector.ofValues k.client k.year k.version

/-- The ledger of a key from the rows selected for it; one without any row is
    missing. -/
def ledgerOf (mappings : List AccountMapping) (k : LedgerKey) (selected : List BalanceRow)
    (standardMapping : Bool) : Attempt Ledger :=
  match selected with
  | [] => .error (.missingLedger k.client k.year k.version)
  | selected => do
    let balances ← balancesOf mappings selected standardMapping
    .ok ⟨k.client, k.year, k.version, balances⟩

/-- The years for which a client has rows, in ascending order. -/
def yearsOf (rows : List BalanceRow) (client : Option String) : List Value :=
  (Value.distinct ((rows.filter (some ·.client == client)).map (·.year))).mergeSort cellUpTo

/-! ### Records -/

def ledgerLogger : String := "selectors.ledger"

def readLedger (rows : List BalanceRow) (mappings : List AccountMapping) (k : LedgerKey)
    (standardMapping : Value) : Log.Recorded Ledger := do
  let selector ← Log.Recorded.attempt k.selector
  let selected := selectedRows rows selector
  let ledger ← Log.Recorded.attempt (ledgerOf mappings k selected standardMapping.isTruthy)
  let skipped := unmappedCount mappings selected
  if standardMapping.isTruthy && skipped != 0 then
    Log.event Log.info ledgerLogger "unmapped_accounts_skipped"
      [("client_id", k.client), ("skipped", .int skipped)]
  Log.event Log.debug ledgerLogger "ledger_snapshot_built"
    [("client_id", k.client), ("fiscal_year", k.year), ("version", k.version),
      ("row_count", .int selected.length), ("balance_count", .int ledger.balances.length),
      ("standard_mapping", standardMapping)]
  return ledger

end KeyFigures.Database
