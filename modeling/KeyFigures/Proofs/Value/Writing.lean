/-
  KeyFigures/Proofs/Value/Writing.lean
  ====================================
  **What has no canonical text.**

  Data is written from its leaves: a list is written item by item, an object
  member by member in the order of the names.  The first part that cannot be
  written decides how the whole fails (`unwritable?_object`), so data has a
  canonical text exactly if each of its leaves has one.  Of the leaves a number
  without normal form has none (`unwritable?_decimal`), nor has a record or a
  set; what JSON can express always has one (`IsJson.unwritable?`).
-/
import KeyFigures.Proofs.Decimal.NormalForm
import KeyFigures.Proofs.Value.Canonical
import KeyFigures.Proofs.Value.Failing

namespace KeyFigures

theorem findSome?_cons_or {α β : Type} (g : α → Option β) (a : α) (rest : List α) :
    (a :: rest).findSome? g = (g a).or (rest.findSome? g) := by
  rw [List.findSome?_cons]
  cases g a <;> rfl

namespace Attempt

variable {α β : Type}

/-- How an attempt fails, if it does. -/
def failure? : Attempt α → Option Failure
  | .ok _ => none
  | .error f => some f

theorem failure?_eq_none_iff {x : Attempt α} : x.failure? = none ↔ ∃ a, x = .ok a := by
  cases x <;> simp [failure?]

theorem failure?_eq_some_iff {x : Attempt α} {f : Failure} :
    x.failure? = some f ↔ x = .error f := by
  cases x <;> simp [failure?]

@[simp]
theorem failure?_map (x : Attempt α) (g : α → β) :
    Attempt.failure? (x.map g : Attempt β) = x.failure? := by
  cases x <;> rfl

/-- A step that cannot fail adds no failure. -/
@[simp]
theorem failure?_bind_ok (x : Attempt α) (g : α → β) :
    Attempt.failure? (x >>= fun a => .ok (g a)) = x.failure? := by
  cases x <;> rfl

/-- Work through a list fails as the first of its items does. -/
theorem failure?_mapM (g : α → Attempt β) (items : List α) :
    Attempt.failure? (items.mapM g) = items.findSome? fun a => (g a).failure? := by
  induction items with
  | nil => rfl
  | cons a rest ih =>
    rw [List.mapM_cons, findSome?_cons_or, ← ih]
    cases g a with
    | error f => rfl
    | ok b => cases rest.mapM g <;> rfl

end Attempt

namespace Value

/-- How data fails to be written, if it does. -/
def unwritable? (v : Value) : Option Failure := v.canonicalChars.failure?

/-! ### Leaves -/

@[simp]
theorem unwritable?_text (s : String) : (Value.text s).unwritable? = none := rfl

/-- A number is written in its normal form. -/
theorem unwritable?_decimal (d : Decimal) :
    (Value.decimal d).unwritable? = (Attempt.ofDecimal d.normalize).failure? := by
  unfold unwritable?
  rw [canonicalChars, Attempt.failure?_map]

theorem unwritable?_decimal_eq_none_iff {d : Decimal} :
    (Value.decimal d).unwritable? = none ↔ d.Normalizes := by
  rw [unwritable?_decimal]
  constructor
  · intro h
    obtain ⟨n, hn⟩ := Attempt.failure?_eq_none_iff.mp h
    constructor
    · cases d with
      | nan negative signalling payload =>
        cases signalling with
        | false => rfl
        | true => cases hn
      | finite => rfl
      | infinite => rfl
    · intro hoverflow
      rw [hoverflow] at hn
      cases hn
  · intro h
    rw [Decimal.normalize_eq h]
    rfl

/-- A number fails to be written because it signals or is too large. -/
theorem unwritable?_decimal_cases {d : Decimal} {f : Failure}
    (h : (Value.decimal d).unwritable? = some f) :
    d.isSignalling = true ∧ f = .number .invalid ∨
      d.normalize = .error .overflow ∧ f = .number .overflow := by
  rw [unwritable?_decimal, Attempt.failure?_eq_some_iff] at h
  cases hd : d.normalize with
  | ok n =>
    rw [hd] at h
    cases h
  | error fault =>
    rw [hd] at h
    cases h
    cases d with
    | finite n c e =>
      obtain rfl := Decimal.normalize_finite_error hd
      exact .inr ⟨rfl, rfl⟩
    | infinite n => cases hd
    | nan negative signalling payload =>
      cases signalling with
      | true =>
        cases hd
        exact .inl ⟨rfl, rfl⟩
      | false => cases hd

/-! ### Lists and objects -/

theorem canonicalItems_eq_mapM (items : List Value) :
    canonicalItems items = items.mapM canonicalChars := by
  induction items with
  | nil => rfl
  | cons v rest ih =>
    rw [canonicalItems, List.mapM_cons, ih]
    rfl

theorem unwritable?_list (items : List Value) :
    (Value.list items).unwritable? = items.findSome? unwritable? := by
  unfold unwritable?
  rw [canonicalChars, Attempt.failure?_bind_ok, canonicalItems_eq_mapM, Attempt.failure?_mapM]

/-- The first member without a text, in the order of the names, decides. -/
theorem unwritable?_object (members : List (String × Value)) :
    (Value.object members).unwritable? =
      (sortMembers members).findSome? fun m => m.2.unwritable? := by
  unfold unwritable?
  rw [canonicalChars, Attempt.failure?_bind_ok, Attempt.failure?_mapM, canonicalMembers_eq_map,
    sortMembers_map fun m : String × Value =>
      m.2.canonicalChars.map fun part => jsonText m.1 ++ ':' :: part,
    List.findSome?_map]
  congr 1
  funext m
  exact Attempt.failure?_map _ _

/-! ### JSON -/

/-- What JSON can express: null, truth values, numbers, texts, lists and
    objects. -/
inductive IsJson : Value → Prop
  | null : IsJson .null
  | bool (b : Bool) : IsJson (.bool b)
  | int (n : Int) : IsJson (.int n)
  | float (x : Float) : IsJson (.float x)
  | text (s : String) : IsJson (.text s)
  | list {items : List Value} : (∀ v ∈ items, IsJson v) → IsJson (.list items)
  | object {members : List (String × Value)} : (∀ m ∈ members, IsJson m.2) →
      IsJson (.object members)

theorem IsJson.getD {v : Value} (h : v.IsJson) (name : String) : (v.getD name).IsJson := by
  cases h with
  | object hmembers =>
    rename_i members
    show ((lookup? members name).getD .null).IsJson
    cases hfound : lookup? members name with
    | none => exact .null
    | some v =>
      obtain ⟨m, hm, rfl⟩ := Option.map_eq_some_iff.mp hfound
      exact hmembers m (List.mem_of_find?_eq_some hm)
  | _ => exact .null

/-- The things that JSON yields when it is gone through are JSON. -/
theorem IsJson.items? {v : Value} {items : List Value} (h : v.IsJson)
    (hitems : v.items? = some items) : ∀ w ∈ items, w.IsJson := by
  cases h with
  | list hall =>
    cases hitems
    exact hall
  | object hall =>
    cases hitems
    intro w hw
    obtain ⟨m, -, rfl⟩ := List.mem_map.mp hw
    exact .text m.1
  | text s =>
    cases hitems
    intro w hw
    obtain ⟨c, -, rfl⟩ := List.mem_map.mp hw
    exact .text _
  | _ => cases hitems

/-- JSON has a canonical text. -/
theorem IsJson.unwritable? {v : Value} (h : v.IsJson) : v.unwritable? = none := by
  induction h with
  | null => rfl
  | bool b => rfl
  | int n => rfl
  | float x => rfl
  | text s => rfl
  | list _ ih =>
    rw [unwritable?_list, List.findSome?_eq_none_iff]
    exact ih
  | object _ ih =>
    rw [unwritable?_object, List.findSome?_eq_none_iff]
    exact fun m hm => ih m ((sortMembers_perm _).mem_iff.mp hm)

end Value

end KeyFigures
