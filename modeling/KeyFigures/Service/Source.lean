/-
  KeyFigures/Service/Source.lean
  ==============================
  **Where ledgers come from.**

  A source either holds ledgers in memory or reads them from the database.
-/
import KeyFigures.Database.Basic

namespace KeyFigures

inductive LedgerSource where
  /-- Ledgers in memory, the latest last. -/
  | memory (ledgers : List Ledger)
  /-- The database, with or without grouping by standard numbers. -/
  | database (db : Database) (standardMapping : Value)
deriving Inhabited

namespace LedgerSource

/-- The latest ledger of an entity and a year and, unless it is null, of a
    version. -/
def latest? (ledgers : List Ledger) (entity year version : Value) : Option Ledger :=
  (ledgers.filter fun l => l.entity.same entity && l.year.same year
    && (version.isNull || l.version.same version)).getLast?

def fetch (source : LedgerSource) (entity year version : Value) : Log.Recorded Ledger :=
  match source with
  | .memory ledgers =>
    match latest? ledgers entity year version with
    | some l => pure l
    | none => throw (.missingLedger entity year version)
  | .database db standardMapping => db.fetch ⟨entity, year, version⟩ standardMapping

/-- Adds a ledger to those in memory; its entity and year have to be keys. -/
def add (source : LedgerSource) (l : Ledger) : Attempt LedgerSource :=
  if l.entity.isKey && l.year.isKey then
    .ok (match source with
      | .memory ledgers => .memory (ledgers ++ [l])
      | .database .. => source)
  else Attempt.mistyped

/-- A source in memory that some ledgers were added to. -/
def ofLedgers (ledgers : List Ledger) : Attempt LedgerSource := ledgers.foldlM add (.memory [])

end LedgerSource

end KeyFigures
