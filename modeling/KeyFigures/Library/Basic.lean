/-
  KeyFigures/Library/Basic.lean
  =============================
  **Formula libraries.**

  A library lists categories and definitions in the order of its data.  Ids
  are unique; where there are categories, every definition belongs to one.
  The checksum is the digest of the data's canonical text, so it does not
  depend on the order of members.
-/
import KeyFigures.Library.Definition
import KeyFigures.Ledger.Basic
import KeyFigures.Formula.Fingerprint

namespace KeyFigures

/-- A heading under which definitions are listed. -/
structure Category where
  key : String
  name : Value
  description : Value
deriving Inhabited

structure Library where
  version : String
  categories : List Category
  formulas : List Definition
  checksum : String
deriving Inhabited

namespace Library

def empty : Library := ⟨"1", [], [], ""⟩

def readCategory (key : String) (v : Value) : Attempt Category :=
  match v with
  | .object members => do
    let name ← Definition.required members "name"
    .ok ⟨key, name, (v.get? "description").getD (.text "")⟩
  | _ => Attempt.mistyped

/-- Reads the categories, if there are any. -/
def readCategories (v : Value) : Attempt (List Category) :=
  if v.isTruthy then
    match v with
    | .object members => members.mapM fun (key, c) => readCategory key c
    | _ => .error .missingAttribute
  else .ok []

/-- Adds a definition, if its id is new and its category is known. -/
def addFormula (categories : List Category) (formulas : List Definition) (v : Value) :
    Attempt (List Definition) := do
  let d ← Definition.ofValue v
  if !d.id.isKey then Attempt.mistyped
  if formulas.any (·.id.same d.id) then
    Attempt.refuse (.duplicateStandardFormula d.id.display)
  if !categories.isEmpty then
    if !d.category.isKey then Attempt.mistyped
    if !categories.any fun c => (Value.text c.key).same d.category then
      Attempt.refuse (.formulaCategory d.id.display d.category.shown)
  .ok (formulas ++ [d])

/-- Reads the definitions, if there are any. -/
def readFormulas (categories : List Category) (v : Value) : Attempt (List Definition) :=
  if v.isTruthy then
    do
      let items ← Attempt.ofTyped v.items?
      items.foldlM (addFormula categories) []
  else .ok []

def ofValue (v : Value) : Attempt Library :=
  match v with
  | .object _ => do
    let categories ← readCategories (v.getD "categories")
    let formulas ← readFormulas categories (v.getD "formulas")
    let checksum ← v.digest
    .ok ⟨((v.get? "version").getD (.text "1")).display, categories, formulas, checksum⟩
  | _ => .error .missingAttribute

end Library

end KeyFigures
