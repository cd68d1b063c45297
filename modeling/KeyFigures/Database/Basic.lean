/-
  KeyFigures/Database/Basic.lean
  ==============================
  **The database.**

  Three tables hold balances, account mappings and formulas.  The tables can
  be dropped and created again, and the connection can be given up for good;
  whoever asks for missing tables or for the connection is told so.
-/
import KeyFigures.Database.Balances
import KeyFigures.Database.Formulas

namespace KeyFigures

namespace Database

/-- The contents of the tables. -/
structure Tables where
  balances : List BalanceRow := []
  mappings : List AccountMapping := []
  formulas : FormulaTable := []
deriving Inhabited

end Database

/-- A database: its tables, if they exist, and whether it is connected. -/
structure Database where
  tables? : Option Database.Tables := some {}
  connected : Bool := true
deriving Inhabited

namespace Database

def tables (db : Database) : Attempt Tables :=
  match db.tables? with
  | some t => .ok t
  | none => .error .noTables

def withTables (db : Database) (t : Tables) : Database := { db with tables? := some t }

/-! ### Rows -/

/-- Adds a balance, unless it is stored already for that version. -/
def insertBalance (db : Database) (client year version account : Value) (balance : Decimal) :
    Attempt Database := do
  if balance.isSignalling then .error .unconvertible
  let t ← db.tables
  let row ← BalanceRow.ofValues client year version account balance
  if t.balances.any (·.clashes row) then .error .refusedRow
  .ok (db.withTables { t with balances := t.balances ++ [row] })

/-- Adds a mapping, unless the account has one. -/
def insertMapping (db : Database) (client account standard : Value) : Attempt Database := do
  let t ← db.tables
  let mapping ← AccountMapping.ofValues client account standard
  if t.mappings.any (·.clashes mapping) then .error .refusedRow
  .ok (db.withTables { t with mappings := t.mappings ++ [mapping] })

/-- Adds a formula row, unless that version is stored already. -/
def insertFormula (db : Database) (d : FormulaData) : Attempt Database := do
  let t ← db.tables
  let row ← FormulaRow.ofValues d
  let formulas ← t.formulas.insert row
  .ok (db.withTables { t with formulas := formulas })

/-! ### Queries -/

def ledger (db : Database) (k : LedgerKey) (standardMapping : Value) : Log.Recorded Ledger := do
  let t ← Log.Recorded.attempt db.tables
  readLedger t.balances t.mappings k standardMapping

def fetch (db : Database) (k : LedgerKey) (standardMapping : Value) : Log.Recorded Ledger := do
  let ledger ← db.ledger k standardMapping
  Log.event Log.debug "services.ledger_source" "ledger_fetched"
    [("entity_id", k.client), ("fiscal_year", k.year),
      ("balance_count", .int ledger.balances.length)]
  return ledger

def years (db : Database) (client : Value) : Attempt (List Value) := do
  let t ← db.tables
  let client ← textCell client
  .ok (yearsOf t.balances client)

/-! ### Administration -/

/-- What can be asked of the connection. -/
inductive Command where
  | connection
  | sessions
  | createTables
  | dropTables
  | disconnect
deriving DecidableEq, Repr

def requireConnection (db : Database) : Attempt Unit :=
  if db.connected then .ok ()
  else .error (.runtime "Engine not initialized. Call init_engine_from_url() first.")

/-- Carries out a command.  A database that is given up loses its tables. -/
def execute (db : Database) (command : Command) : Attempt Database := do
  match command with
  | .disconnect => .ok ⟨none, false⟩
  | .connection | .sessions =>
    db.requireConnection
    .ok db
  | .createTables =>
    db.requireConnection
    .ok { db with tables? := some (db.tables?.getD {}) }
  | .dropTables =>
    db.requireConnection
    .ok { db with tables? := none }

def noteOpened : Log.Recorded Unit :=
  Log.event Log.info "db.engine" "engine_initialized"
    [("dialect", .text "sqlite"), ("echo", .bool false)]

end Database

end KeyFigures
