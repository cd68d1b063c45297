/-
  KeyFigures/Registry/Basic.lean
  ==============================
  **Finding formulas by id.**

  A registry puts users' formulas beside those of the library.  The library
  comes first and its ids cannot be taken.  A formula is saved only if its
  references can all be replaced, itself counted as saved already.
-/
import KeyFigures.Registry.Expansion
import KeyFigures.Registry.UserStore
import KeyFigures.Text.LowerCase
import KeyFigures.Text.Blank

namespace KeyFigures

structure Registry where
  standard : List Definition
  user : Option Registry.UserStore
  depth : Registry.Depth

namespace Registry

open KeyFigures.Text

/-- A registry; references may nest at least one deep. -/
def make (standard : List Definition) (user : Option UserStore) (maxDepth : Value) :
    Attempt Registry := do
  let depth ← Depth.ofValue maxDepth
  .ok ⟨standard, user, depth⟩

theorem make_of_pos {bound : Int} (h : 1 ≤ bound) (standard : List Definition)
    (user : Option UserStore) :
    make standard user (.int bound) = .ok ⟨standard, user, .whole bound.toNat⟩ := by
  have hnat : (bound.toNat : Int) = bound := Int.toNat_of_nonneg (by omega)
  simp [make, Depth.ofValue_int, Int.not_lt.mpr h, Depth.whole, hnat, bind, Except.bind]

/-- A bound in whole numbers is taken as it is. -/
theorem make_int {standard : List Definition} {user : Option UserStore} {bound : Int} {r : Registry}
    (h : make standard user (.int bound) = .ok r) :
    1 ≤ bound ∧ r = ⟨standard, user, .whole bound.toNat⟩ := by
  obtain ⟨depth, hdepth, h⟩ := Attempt.bind_eq_ok.mp h
  rw [Depth.ofValue_int] at hdepth
  split at hdepth
  · cases hdepth
  · rename_i hbound
    have hpos : 1 ≤ bound := Int.not_lt.mp hbound
    have hnat : (bound.toNat : Int) = bound := Int.toNat_of_nonneg (by omega)
    cases hdepth
    cases h
    exact ⟨hpos, by rw [Depth.whole, hnat]⟩

/-! ### Looking up -/

/-- The formula of the library with that id, which has to be a key; of several
    with one id the last counts. -/
def standard? (r : Registry) (id : Value) : Attempt (Option Definition) :=
  if id.isKey then .ok (r.standard.filter (·.id.same id)).getLast? else Attempt.mistyped

/-- The formula with that id; the library comes first. -/
def definition? (r : Registry) (id : Value) : Attempt (Option Definition) := do
  match ← r.standard? id with
  | some d => .ok (some d)
  | none =>
    match r.user with
    | some store => store.get? id
    | none => .ok none

/-- The formula with that id, which has to exist. -/
def definition (r : Registry) (id : Value) : Attempt Definition := do
  match ← r.definition? id with
  | some d => .ok d
  | none => .error (.formulaNotFound id)

/-- Every formula: those of the library in its order, then the users' by id. -/
def definitions (r : Registry) : Attempt (List Definition) :=
  match r.user with
  | some store => do
    let saved ← store.all
    .ok (r.standard ++ saved)
  | none => .ok r.standard

/-- Every formula of a category; null is no category. -/
def ofCategory (r : Registry) (category : Value) : Attempt (List Definition) :=
  r.definitions.map (·.filter (category.isNull || ·.category.same category))

/-- Whether `needle` stands somewhere in a row of characters. -/
def standsIn (needle : List Char) : List Char → Bool
  | [] => needle.isEmpty
  | c :: rest => needle.isPrefixOf (c :: rest) || standsIn needle rest

/-- Whether `needle` occurs in a text, letter case aside. -/
def occurs (needle : List Char) (v : Value) : Attempt Bool :=
  match v with
  | .text s => .ok (standsIn needle (lowerCase s.toList))
  | _ => .error .missingAttribute

/-- Whether `needle` occurs in the id, else in the name, else in the
    description of a formula. -/
def mentions (needle : List Char) (d : Definition) : Attempt Bool := do
  if ← occurs needle d.id then .ok true
  else if ← occurs needle d.name then .ok true
  else occurs needle d.description

/-- The formulas in whose id, name or description the query occurs; a blank
    query is met by all. -/
def search (r : Registry) (query : Value) : Attempt (List Definition) :=
  match query with
  | .text query => do
    let needle := lowerCase (strip query.toList)
    let all ← r.definitions
    if needle.isEmpty then .ok all else all.filterM (mentions needle)
  | _ => .error .missingAttribute

/-! ### Replacing references -/

/-- The tree of an id, where `pending` counts as saved already. -/
def bodyOf (r : Registry) (pending : Option Definition) (id : Value) : Attempt Term :=
  match pending with
  | some d => if d.id.same id then .ok d.tree else (r.definition id).map (·.tree)
  | none => (r.definition id).map (·.tree)

def resolveId (r : Registry) (id : Value) : Attempt Term := do
  let d ← r.definition id
  expand (r.bodyOf none) r.depth [id] d.tree

def resolveSource (r : Registry) (source : Value) : Attempt Term := do
  let t ← parseSource source
  expand (r.bodyOf none) r.depth [] t

/-! ### Saving -/

/-- Refuses a definition that cannot be saved, and gives the store it is saved
    in. -/
def vetted (r : Registry) (d : Definition) : Attempt UserStore :=
  match r.user with
  | none => .error (.misuse .noUserStore)
  | some store => do
    match ← r.standard? d.id with
    | some _ => .error (.reservedId d.id)
    | none =>
      let _ ← expand (r.bodyOf (some d)) r.depth [d.id] d.tree
      .ok store

/-- Saves a definition; the second part is the definition as saved. -/
def save (r : Registry) (d : Definition) : Attempt (Registry × Definition) := do
  let store ← r.vetted d
  let (store, d) ← store.save d
  .ok ({ r with user := some store }, d)

def saveRecorded (r : Registry) (d : Definition) : Log.Recorded (Registry × Definition) := do
  let store ← Log.Recorded.attempt (r.vetted d)
  let (store, d) ← store.saveRecorded d
  Log.event Log.info "services.formula_registry" "formula_saved"
    [("formula_id", d.id), ("version", d.version), ("category", d.category)]
  return ({ r with user := some store }, d)

def saveStandard (_ : Registry) (_ : Definition) : Attempt Definition :=
  .error (.misuse .readOnlyLibrary)

def userStore (r : Registry) : Attempt UserStore :=
  match r.user with
  | some store => .ok store
  | none => .error .missingAttribute

end Registry

end KeyFigures
