/-
  KeyFigures/Library/Definition.lean
  ==================================
  **Named formulas.**

  A definition gives a formula an id, a tree, a result kind and descriptive
  members.  The descriptive members are data: most are texts, and the version
  is a number as a rule.  A definition is never changed: an edit is a new
  definition with a higher version.
-/
import KeyFigures.Formula.Builder
import KeyFigures.Formula.Written
import KeyFigures.Result
import KeyFigures.Benchmarks

namespace KeyFigures

structure Definition where
  id : Value
  name : Value
  category : Value
  tree : Term
  kind : ResultKind
  description : Value
  sourceText : Value
  version : Value
  interpretation : Value
  benchmarks : Option Benchmarks
deriving DecidableEq, Repr, Inhabited

namespace Definition

def required (members : List (String × Value)) (name : String) : Attempt Value :=
  match Value.lookup? members name with
  | some v => .ok v
  | none => .error (.missingKey (Text.quoted name))

/-- The tree of a definition's body; a body that cannot be read is told together
    with the formula's id. -/
def bodyTree (id body : Value) : Attempt Term :=
  match parseSource body with
  | .error (.parse fault) => Attempt.refuse (.formulaSource id.display fault.message)
  | r => r

/-- Reads a definition: it has either a formula text or a term list as its
    body, and a name and a category. -/
def ofValue (v : Value) : Attempt Definition := do
  match v with
  | .object members =>
    let id ← required members "id"
    let expression := Value.lookup? members "expression"
    let terms := Value.lookup? members "terms"
    let body ← match expression, terms with
      | some body, none => .ok body
      | none, some body => .ok body
      | _, _ => Attempt.refuse (.formulaBody id.display)
    let tree ← bodyTree id body
    let kind ← match Value.lookup? members "result_kind" with
      | none => .ok ResultKind.amount
      | some k =>
        match ResultKind.ofValue k with
        | .ok kind => .ok kind
        | .error _ => Attempt.refuse (.formulaKind id.display k.shown)
    let name ← required members "name"
    let category ← required members "category"
    let sourceText ← match expression with
      | some text => .ok text
      | none => tree.toText.map .text
    let benchmarks ← Benchmarks.ofValue (v.getD "benchmarks")
    .ok ⟨id, name, category, tree, kind, (v.get? "description").getD (.text ""), sourceText,
      (v.get? "version").getD (.int 1), v.getD "interpretation", benchmarks⟩
  | _ => Attempt.mistyped

/-! ### Edits -/

def editable : List String := [
  "id", "name", "category", "ast", "result_kind", "description", "source_text", "interpretation",
  "benchmarks"]

/-- The definition with one member set to data.  Data is no tree, no result
    kind and no thresholds; of these only a tree can be replaced by what is
    none, and thresholds can be dropped. -/
def withMember (d : Definition) (name : String) (v : Value) : Attempt Definition :=
  match name with
  | "id" => .ok { d with id := v }
  | "name" => .ok { d with name := v }
  | "category" => .ok { d with category := v }
  | "description" => .ok { d with description := v }
  | "source_text" => .ok { d with sourceText := v }
  | "interpretation" => .ok { d with interpretation := v }
  | "ast" => .ok { d with tree := .foreign v }
  | "benchmarks" => if v.isNull then .ok { d with benchmarks := none } else .error .missingAttribute
  | _ => .error .missingAttribute

def nextVersion (d : Definition) (changes : List (String × Value)) : Attempt Definition := do
  let version ← Attempt.ofTyped d.version.successor?
  if changes.all fun (name, _) => editable.contains name then
    changes.foldlM (fun d (name, v) => d.withMember name v) { d with version := version }
  else Attempt.mistyped

end Definition

end KeyFigures
