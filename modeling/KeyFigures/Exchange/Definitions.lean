/-
  KeyFigures/Exchange/Definitions.lean
  ====================================
  **Definitions, libraries and settings as data.**

  A definition is an object with its tree as a list and its thresholds as
  texts.  One that is read gives its tree or a formula text or term list as its
  source; most other members may be left out.
-/
import KeyFigures.Exchange.Figures
import KeyFigures.Library.Basic
import KeyFigures.Library.Settings

namespace KeyFigures

def Definition.toData (d : Definition) : Value :=
  .object [("id", d.id), ("name", d.name), ("category", d.category), ("ast", d.tree.toData),
    ("kind", d.kind.word), ("description", d.description), ("source_text", d.sourceText),
    ("version", d.version), ("interpretation", d.interpretation),
    ("benchmarks", Benchmarks.toData d.benchmarks)]

def Definition.listing (ds : List Definition) : Value :=
  .list (ds.map fun d => .list [d.id, d.version])

/-- The tree that an object gives, as a list or as a formula source. -/
def Term.ofMembers (v : Value) : Attempt Term :=
  match v.get? "ast" with
  | some tree => Term.ofData tree
  | none => parseSource (v.getD "source")

def Definition.ofData (v : Value) : Attempt Definition := do
  match v with
  | .object members =>
    let id ← required members "id"
    let member (name : String) (otherwise : Value) : Value := (v.get? name).getD otherwise
    let tree ← Term.ofMembers v
    let kind ← ResultKind.ofStrictMember v
    let benchmarks ← Benchmarks.ofData (v.getD "benchmarks")
    .ok {
      id := id
      name := member "name" id
      category := member "category" (.text "custom")
      tree := tree
      kind := kind
      description := member "description" (.text "")
      sourceText := v.getD "source_text"
      version := member "version" (.int 1)
      interpretation := v.getD "interpretation"
      benchmarks := benchmarks }
  | _ => Attempt.mistyped

def Library.toData (l : Library) : Value :=
  .object [("version", .text l.version),
    ("categories", .list (l.categories.map fun c => .list [.text c.key, c.name, c.description])),
    ("formulas", .list (l.formulas.map (·.toData))), ("checksum", .text l.checksum)]

/-- Settings as an object; doubles have six places. -/
def SettingsData.toData (s : SettingsData) : Value :=
  .object (s.members.map fun (name, v) =>
    match v with
    | .float x => (name, .text (Binary.fixed 6 x))
    | v => (name, v))

end KeyFigures
