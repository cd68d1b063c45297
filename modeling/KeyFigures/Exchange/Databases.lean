/-
  KeyFigures/Exchange/Databases.lean
  ==================================
  **Databases as data.**

  A balance is a list of client, year, version, account and amount, a mapping
  one of client, account and standard number.  A database is an object with its
  balances, mappings and formulas, which are put in one after another once the
  database is opened.
-/
import KeyFigures.Exchange.Definitions
import KeyFigures.Database.Basic

namespace KeyFigures.Database

/-- The short description of a balance that is given as a list. -/
def describeItems (items : List Value) : Attempt String := do
  match items with
  | [client, year, _, account, balance] =>
    let balance ← balance.toDecimal
    .ok (describeRow client year account balance)
  | _ => Attempt.mistyped

/-- A formula given as an object; its name is its id if there is none. -/
def FormulaData.ofData (v : Value) : Attempt FormulaData := do
  match v with
  | .object members =>
    let id ← Definition.required members "id"
    let member (name : String) (otherwise : Value) : Value := (v.get? name).getD otherwise
    .ok {
      id := id
      version := member "version" (.int 1)
      name := member "name" id
      category := member "category" (.text "custom")
      expression := v.getD "expression"
      kind := member "kind" (.text "amount")
      description := v.getD "description"
      metadata := v.getD "metadata" }
  | _ => Attempt.mistyped

def addBalance (db : Database) (v : Value) : Attempt Database := do
  match v with
  | .list [client, year, version, account, balance] =>
    let balance ← balance.toDecimal
    db.insertBalance client year version account balance
  | _ => Attempt.mistyped

def addMapping (db : Database) (v : Value) : Attempt Database :=
  match v with
  | .list [client, account, standard] => db.insertMapping client account standard
  | _ => Attempt.mistyped

/-- Saves a formula given as an object and records that. -/
def addFormula (db : Database) (v : Value) : Log.Recorded Database := do
  let d ← Log.Recorded.attempt (Definition.ofData v)
  let t ← Log.Recorded.attempt db.tables
  let (formulas, d) ← Log.Recorded.attempt (t.formulas.save d)
  noteStored d
  return db.withTables { t with formulas := formulas }

def ofData (v : Value) : Log.Recorded Database := do
  noteOpened
  let db ← Log.Recorded.attempt ((v.getD "rows").listed.foldlM addBalance {})
  let db ← Log.Recorded.attempt ((v.getD "mappings").listed.foldlM addMapping db)
  (v.getD "formulas").listed.foldlM addFormula db

end KeyFigures.Database
