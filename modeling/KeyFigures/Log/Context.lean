/-
  KeyFigures/Log/Context.lean
  ===========================
  **The fields bound to a line of work.**

  Every log record of a line of work carries the fields bound to it: the
  request, and while one evaluation runs its entity, fiscal year and formula
  key.  `bind` sets fields for the length of a block and says what the block's
  end has to restore (`Saved`).
-/
import KeyFigures.Failure

namespace KeyFigures.Log

/-- The fields of a context, in the order in which they are shown. -/
inductive Field where
  | requestId
  | entityId
  | fiscalYear
  | formulaKey
deriving DecidableEq, Repr, Inhabited

namespace Field

/-- Every field, in order. -/
def all : List Field := [.requestId, .entityId, .fiscalYear, .formulaKey]

def name : Field → String
  | .requestId => "request_id"
  | .entityId => "entity_id"
  | .fiscalYear => "fiscal_year"
  | .formulaKey => "formula_key"

def ofName? (s : String) : Option Field := all.find? (·.name == s)

end Field

/-- The texts bound to the fields. -/
structure Context where
  requestId : Option String := none
  entityId : Option String := none
  fiscalYear : Option String := none
  formulaKey : Option String := none
deriving DecidableEq, Repr, Inhabited

namespace Context

def empty : Context := {}

def get (c : Context) : Field → Option String
  | .requestId => c.requestId
  | .entityId => c.entityId
  | .fiscalYear => c.fiscalYear
  | .formulaKey => c.formulaKey

/-- Binds a field to a text, or unbinds it. -/
def put (c : Context) (f : Field) (v : Option String) : Context :=
  match f with
  | .requestId => { c with requestId := v }
  | .entityId => { c with entityId := v }
  | .fiscalYear => { c with fiscalYear := v }
  | .formulaKey => { c with formulaKey := v }

theorem get_put_self (c : Context) (f : Field) (v : Option String) : (c.put f v).get f = v := by
  cases f <;> rfl

theorem get_put_of_ne (c : Context) {f g : Field} (v : Option String) (h : g ≠ f) :
    (c.put f v).get g = c.get g := by
  cases f <;> cases g <;> first | rfl | exact absurd rfl h

/-- The bound fields by name, in order. -/
def toList (c : Context) : List (String × String) :=
  Field.all.filterMap fun f => (c.get f).map fun v => (f.name, v)

/-- Binds the given fields to the texts of their values; a null leaves its
    field as it is. -/
def set (c : Context) (fields : List (Field × Value)) : Context :=
  fields.foldl (fun c (f, v) => if v.isNull then c else c.put f (some v.display)) c

/-- What the end of a block has to restore: fields and their texts before, the
    last binding first. -/
abbrev Saved := List (Field × Option String)

/-- Binds named fields one after another; a null is passed over.  A name that
    is no field is refused, and what was bound before it stays bound. -/
def bind (c : Context) (fields : List (String × Value)) : Attempt Saved × Context :=
  go c [] fields
where
  go (c : Context) (saved : Saved) : List (String × Value) → Attempt Saved × Context
    | [] => (.ok saved, c)
    | (name, v) :: rest =>
      if v.isNull then go c saved rest
      else
        match Field.ofName? name with
        | none => (.error (.missingKey (Text.quoted name)), c)
        | some f => go (c.put f (some v.display)) ((f, c.get f) :: saved) rest

/-- Gives the fields of a block the texts that they had before it. -/
def restore (c : Context) (saved : Saved) : Context :=
  saved.foldl (fun c (f, v) => c.put f v) c

end Context

end KeyFigures.Log
