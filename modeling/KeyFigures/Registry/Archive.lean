/-
  KeyFigures/Registry/Archive.lean
  ================================
  **Formulas saved in memory.**

  An archive lists what was saved in the order of saving and forgets nothing.
  The last saved version of a formula is the one in force.
-/
import KeyFigures.Library.Definition

namespace KeyFigures.Registry

/-- Saved definitions, the oldest first. -/
structure Archive where
  saved : List Definition := []
deriving Repr, Inhabited

namespace Archive

def empty : Archive := {}

/-- Every version of a formula, the oldest first. -/
def versions (a : Archive) (id : Value) : List Definition := a.saved.filter (·.id.same id)

/-- The version of a formula that is in force. -/
def get? (a : Archive) (id : Value) : Option Definition := (a.versions id).getLast?

/-- The ids of the saved formulas, in the order in which they came up. -/
def ids (a : Archive) : List Value := Value.distinct (a.saved.map (·.id))

/-- The versions in force, by id; the ids need to have an order. -/
def all (a : Archive) : Attempt (List Definition) := do
  let ids ← Attempt.ofTyped (Value.sorted? a.ids)
  .ok (ids.filterMap a.get?)

/-- A definition with the number under which it is saved: its own for a new
    id, else the one after the version in force. -/
def numbered (a : Archive) (d : Definition) : Attempt Definition :=
  match a.get? d.id with
  | some latest => do
    let next ← Attempt.ofTyped latest.version.successor?
    .ok { d with version := next }
  | none => .ok d

def add (a : Archive) (d : Definition) : Archive := ⟨a.saved ++ [d]⟩

/-- Saves a definition; the second part is the definition as saved. -/
def save (a : Archive) (d : Definition) : Attempt (Archive × Definition) :=
  if d.id.isKey then do
    let d ← a.numbered d
    .ok (a.add d, d)
  else Attempt.mistyped

def ofList (ds : List Definition) : Attempt Archive :=
  ds.foldlM (fun a d => (a.save d).map (·.1)) empty

/-! ### What saving changes -/

/-- Numbering changes nothing but the version. -/
theorem numbered_eq {a : Archive} {d e : Definition} (h : a.numbered d = .ok e) :
    e = { d with version := e.version } := by
  unfold numbered at h
  split at h
  · obtain ⟨next, -, h⟩ := Attempt.bind_eq_ok.mp h
    cases h
    rfl
  · cases h
    rfl

theorem numbered_id {a : Archive} {d e : Definition} (h : a.numbered d = .ok e) : e.id = d.id := by
  rw [numbered_eq h]

theorem numbered_tree {a : Archive} {d e : Definition} (h : a.numbered d = .ok e) :
    e.tree = d.tree := by
  rw [numbered_eq h]

theorem versions_add_self {a : Archive} {d : Definition} {id : Value} (h : d.id.same id = true) :
    (a.add d).versions id = a.versions id ++ [d] := by
  simp [add, versions, h]

theorem versions_add_of_not_same {a : Archive} {d : Definition} {id : Value}
    (h : d.id.same id = false) : (a.add d).versions id = a.versions id := by
  simp [add, versions, h]

theorem get?_add_self {a : Archive} {d : Definition} {id : Value} (h : d.id.same id = true) :
    (a.add d).get? id = some d := by
  simp [get?, versions_add_self h]

theorem get?_add_of_not_same {a : Archive} {d : Definition} {id : Value}
    (h : d.id.same id = false) : (a.add d).get? id = a.get? id := by
  simp [get?, versions_add_of_not_same h]

end Archive

end KeyFigures.Registry
