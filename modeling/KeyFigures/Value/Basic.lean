/-
  KeyFigures/Value/Basic.lean
  ===========================
  **Structured data.**

  Settings, library entries, log fields and everything that is hashed is
  structured data: the usual tree of numbers, texts, lists and objects, with
  whole and binary numbers apart and the members of an object in their order,
  and with further leaves for decimals, points in time, members of an
  enumeration, sets and records.  Ids, years and versions that come from
  outside are data, too: most are texts or whole numbers, none has to be.

  `Value.IsPlain` says that data has none of the further leaves.
-/
import KeyFigures.Decimal.Basic
import KeyFigures.Time.Moment

namespace KeyFigures

/-- A named choice of an enumeration: the enumeration, the choice and the text
    that stands for it. -/
structure Choice where
  enumeration : String
  name : String
  text : String
deriving DecidableEq, Repr, Inhabited

inductive Value where
  | null
  | bool (b : Bool)
  | int (n : Int)
  | float (x : Float)
  | text (s : String)
  | decimal (d : Decimal)
  | moment (m : Moment)
  | day (d : Day)
  | choice (c : Choice)
  /-- A thing with named fields, such as a node of a formula tree. -/
  | record (typeName : String) (fields : List (String × Value))
  | list (items : List Value)
  | tuple (items : List Value)
  | set (items : List Value)
  | object (members : List (String × Value))
deriving Repr, Inhabited

namespace Value

/-! ### Equality -/

mutual

/-- Whether two data are the same, constructor by constructor. -/
def decEq (a b : Value) : Decidable (a = b) := by
  cases a with
  | null => cases b <;> first | exact isTrue rfl | exact isFalse (by simp)
  | bool x =>
    cases b with
    | bool y => exact decidable_of_iff (x = y) (by simp)
    | _ => exact isFalse (by simp)
  | int x =>
    cases b with
    | int y => exact decidable_of_iff (x = y) (by simp)
    | _ => exact isFalse (by simp)
  | float x =>
    cases b with
    | float y => exact decidable_of_iff (x = y) (by simp)
    | _ => exact isFalse (by simp)
  | text x =>
    cases b with
    | text y => exact decidable_of_iff (x = y) (by simp)
    | _ => exact isFalse (by simp)
  | decimal x =>
    cases b with
    | decimal y => exact decidable_of_iff (x = y) (by simp)
    | _ => exact isFalse (by simp)
  | moment x =>
    cases b with
    | moment y => exact decidable_of_iff (x = y) (by simp)
    | _ => exact isFalse (by simp)
  | day x =>
    cases b with
    | day y => exact decidable_of_iff (x = y) (by simp)
    | _ => exact isFalse (by simp)
  | choice x =>
    cases b with
    | choice y => exact decidable_of_iff (x = y) (by simp)
    | _ => exact isFalse (by simp)
  | record n xs =>
    cases b with
    | record m ys =>
      exact @decidable_of_iff _ (n = m ∧ xs = ys) (by simp)
        (@instDecidableAnd _ _ _ (decEqMembers xs ys))
    | _ => exact isFalse (by simp)
  | list xs =>
    cases b with
    | list ys => exact @decidable_of_iff _ (xs = ys) (by simp) (decEqItems xs ys)
    | _ => exact isFalse (by simp)
  | tuple xs =>
    cases b with
    | tuple ys => exact @decidable_of_iff _ (xs = ys) (by simp) (decEqItems xs ys)
    | _ => exact isFalse (by simp)
  | set xs =>
    cases b with
    | set ys => exact @decidable_of_iff _ (xs = ys) (by simp) (decEqItems xs ys)
    | _ => exact isFalse (by simp)
  | object xs =>
    cases b with
    | object ys => exact @decidable_of_iff _ (xs = ys) (by simp) (decEqMembers xs ys)
    | _ => exact isFalse (by simp)

def decEqItems (xs ys : List Value) : Decidable (xs = ys) := by
  cases xs with
  | nil => cases ys <;> first | exact isTrue rfl | exact isFalse (by simp)
  | cons x xs =>
    cases ys with
    | nil => exact isFalse (by simp)
    | cons y ys =>
      exact @decidable_of_iff _ (x = y ∧ xs = ys) (by simp)
        (@instDecidableAnd _ _ (decEq x y) (decEqItems xs ys))

def decEqMembers (xs ys : List (String × Value)) : Decidable (xs = ys) := by
  cases xs with
  | nil => cases ys <;> first | exact isTrue rfl | exact isFalse (by simp)
  | cons x xs =>
    cases x with
    | mk n v =>
      cases ys with
      | nil => exact isFalse (by simp)
      | cons y ys =>
        cases y with
        | mk m w =>
          exact @decidable_of_iff _ (n = m ∧ v = w ∧ xs = ys) (by simp [and_assoc])
            (@instDecidableAnd _ _ _ (@instDecidableAnd _ _ (decEq v w) (decEqMembers xs ys)))

end

instance : DecidableEq Value := decEq

def ofText? : Option String → Value
  | some s => .text s
  | none => .null

def texts (items : List String) : Value := .list (items.map .text)

/-- Plain data: null, truth values, whole numbers, texts, lists and objects. -/
inductive IsPlain : Value → Prop
  | null : IsPlain .null
  | bool (b : Bool) : IsPlain (.bool b)
  | int (n : Int) : IsPlain (.int n)
  | text (s : String) : IsPlain (.text s)
  | list {items : List Value} : (∀ v ∈ items, IsPlain v) → IsPlain (.list items)
  | object {members : List (String × Value)} : (∀ m ∈ members, IsPlain m.2) →
      (members.map (·.1)).Nodup → IsPlain (.object members)

/-! ### Members of an object -/

def lookup? (members : List (String × Value)) (name : String) : Option Value :=
  (members.find? (·.1 == name)).map (·.2)

/-- Sets the member of that name: a known name keeps its place. -/
def put (members : List (String × Value)) (name : String) (v : Value) : List (String × Value) :=
  if members.any (·.1 == name) then
    members.map fun m => if m.1 == name then (name, v) else m
  else members ++ [(name, v)]

/-- The member of that name, if the data is an object that has it. -/
def get? (v : Value) (name : String) : Option Value :=
  match v with
  | .object members => lookup? members name
  | _ => none

/-- The member of that name, `null` if there is none. -/
def getD (v : Value) (name : String) : Value := (v.get? name).getD .null

/-- The things that data yields when it is gone through one by one: the items
    of a list, the names of an object, the characters of a text. -/
def items? : Value → Option (List Value)
  | .list items | .tuple items | .set items => some items
  | .object members => some (members.map fun m => .text m.1)
  | .text s => some (s.toList.map fun c => .text (String.singleton c))
  | _ => none

/-! ### Truth -/

/-- Whether data counts as something: not null, false, zero or empty. -/
def isTruthy : Value → Bool
  | .null => false
  | .bool b => b
  | .int n => n != 0
  | .float x => x != 0.0
  | .text s => !s.isEmpty
  | .decimal d => !d.isZero
  | .list items | .tuple items | .set items => !items.isEmpty
  | .object members => !members.isEmpty
  | .moment _ | .day _ | .choice _ | .record .. => true

def isNull : Value → Bool
  | .null => true
  | _ => false

/-- The text, if the data is one. -/
def text? : Value → Option String
  | .text s => some s
  | _ => none

/-- The whole number, if the data is one. -/
def int? : Value → Option Int
  | .int n => some n
  | _ => none

end Value

end KeyFigures
