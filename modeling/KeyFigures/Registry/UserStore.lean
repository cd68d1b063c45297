/-
  KeyFigures/Registry/UserStore.lean
  ==================================
  **Where users' formulas are kept.**

  Either in memory or in the database.  Both keep every version, hand out the
  latest one and list formulas by id; the database keeps the text of a formula
  instead of its tree.
-/
import KeyFigures.Registry.Archive
import KeyFigures.Database.Basic

namespace KeyFigures.Registry

/-- A store of users' formulas. -/
inductive UserStore where
  | memory (archive : Archive)
  | stored (database : Database)
deriving Inhabited

namespace UserStore

def get? (s : UserStore) (id : Value) : Attempt (Option Definition) :=
  match s with
  | .memory a => if id.isKey then .ok (a.get? id) else Attempt.mistyped
  | .stored db => do
    let t ← db.tables
    t.formulas.get? id

def versions (s : UserStore) (id : Value) : Attempt (List Definition) :=
  match s with
  | .memory a => if id.isKey then .ok (a.versions id) else Attempt.mistyped
  | .stored db => do
    let t ← db.tables
    t.formulas.versions id

/-- The latest version of every formula, by id. -/
def all (s : UserStore) : Attempt (List Definition) :=
  match s with
  | .memory a => a.all
  | .stored db => do
    let t ← db.tables
    t.formulas.all

/-- Saves a definition; the second part is the definition as saved. -/
def save (s : UserStore) (d : Definition) : Attempt (UserStore × Definition) :=
  match s with
  | .memory a => do
    let (a, d) ← a.save d
    .ok (.memory a, d)
  | .stored db => do
    let t ← db.tables
    let (formulas, d) ← t.formulas.save d
    .ok (.stored (db.withTables { t with formulas := formulas }), d)

/-- Saves a definition and records what the store records. -/
def saveRecorded (s : UserStore) (d : Definition) : Log.Recorded (UserStore × Definition) := do
  let (saved, d) ← Log.Recorded.attempt (s.save d)
  match saved with
  | .memory _ => pure ()
  | .stored _ => Database.noteStored d
  return (saved, d)

end UserStore

end KeyFigures.Registry
