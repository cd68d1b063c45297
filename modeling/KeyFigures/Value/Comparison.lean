/-
  KeyFigures/Value/Comparison.lean
  ================================
  **Which data counts as equal, and which comes first.**

  Loosely typed data is compared by what it stands for: a truth value counts as
  zero or one, a double as the number it is exactly, and the order of an
  object's members does not matter.  `Value.unified` is the common form of all
  data that count as equal, so that `a.same b` is equality of unified data;
  wherever data serves as a key, its unified form does.

  Numbers are ordered by size, texts by code point, lists item by item; other
  data has no order.
-/
import KeyFigures.Value.Basic
import KeyFigures.Binary.Basic

namespace KeyFigures

/-! ### Numbers -/

/-- A number that may be infinite: a fraction with a positive denominator, or
    beyond all fractions, or no number at all. -/
inductive Magnitude where
  | fraction (numerator : Int) (denominator : Nat)
  | infinite (negative : Bool)
  | undefined
deriving DecidableEq, Repr

namespace Magnitude

def ofFloat (x : Float) : Magnitude :=
  match Binary.parts x with
  | .finite negative m q =>
    let (n, d) := Binary.ratio m q
    .fraction (if negative then -(n : Int) else n) d
  | .infinite negative => .infinite negative
  | .nan => .undefined

/-- The whole number, if it is one. -/
def whole? : Magnitude → Option Int
  | .fraction n d => if n % d = 0 then some (n / d) else none
  | _ => none

/-- The order of two numbers, unless one is undefined. -/
def compare? : Magnitude → Magnitude → Option Ordering
  | .undefined, _ | _, .undefined => none
  | .fraction a b, .fraction c d => some (compare (a * d) (c * b))
  | .infinite negative, .fraction .. => some (if negative then .lt else .gt)
  | .fraction .., .infinite negative => some (if negative then .gt else .lt)
  | .infinite a, .infinite b => some (compare b.toNat a.toNat)

def floor? : Magnitude → Option Int
  | .fraction n d => some (n / d)
  | _ => none

end Magnitude

def Value.sortMembers {α : Type} (members : List (String × α)) : List (String × α) :=
  members.mergeSort fun a b => decide (a.1 ≤ b.1)

namespace Value

def magnitude? : Value → Option Magnitude
  | .bool b => some (.fraction b.toNat 1)
  | .int n => some (.fraction n 1)
  | .float x => some (.ofFloat x)
  | _ => none

/-! ### Equality -/

mutual

/-- The common form of all data that count as equal to this. -/
def unified : Value → Value
  | .bool b => .int b.toNat
  | .float x => ((Magnitude.ofFloat x).whole?.map .int).getD (.float x)
  | .list items => .list (unifiedItems items)
  | .tuple items => .tuple (unifiedItems items)
  | .set items => .set (unifiedItems items)
  | .object members => .object (sortMembers (unifiedMembers members))
  | .record typeName fields => .record typeName (unifiedMembers fields)
  | v => v

def unifiedItems : List Value → List Value
  | [] => []
  | v :: rest => v.unified :: unifiedItems rest

def unifiedMembers : List (String × Value) → List (String × Value)
  | [] => []
  | (name, v) :: rest => (name, v.unified) :: unifiedMembers rest

end

def same (a b : Value) : Bool := a.unified == b.unified

theorem same_iff {a b : Value} : a.same b = true ↔ a.unified = b.unified := by
  simp [same]

@[simp]
theorem same_self (a : Value) : a.same a = true := by
  simp [same]

theorem same_comm (a b : Value) : a.same b = b.same a := by
  simp only [same]
  exact Bool.beq_comm

theorem same_congr {a b : Value} (h : a.same b = true) (c : Value) : a.same c = b.same c := by
  simp [same, same_iff.mp h]

theorem same_congr_right {a b : Value} (h : a.same b = true) (c : Value) : c.same a = c.same b := by
  simp [same, same_iff.mp h]

/-- Only the text itself counts as the same as a text. -/
theorem same_text_iff {v : Value} {s : String} : v.same (.text s) = true ↔ v = .text s := by
  refine ⟨fun h => ?_, fun h => by rw [h, same_self]⟩
  rw [same_iff] at h
  cases v with
  | text t => simpa only [unified] using h
  | float x =>
    simp only [unified] at h
    cases hw : (Magnitude.ofFloat x).whole? <;> simp [hw] at h
  | _ => simp [unified] at h

/-- Whether data can be a key: lists, objects and sets can not, since they can
    change. -/
def isKey : Value → Bool
  | .list _ | .object _ | .set _ => false
  | .tuple items => areKeys items
  | _ => true
where
  areKeys : List Value → Bool
    | [] => true
    | v :: rest => v.isKey && areKeys rest

mutual

theorem isKey_unified (v : Value) : v.unified.isKey = v.isKey := by
  cases v with
  | tuple items => simp only [unified, isKey, areKeys_unifiedItems items]
  | float x =>
    rw [unified]
    cases (Magnitude.ofFloat x).whole? <;> rfl
  | _ => simp only [unified, isKey]

theorem areKeys_unifiedItems (items : List Value) :
    isKey.areKeys (unifiedItems items) = isKey.areKeys items := by
  cases items with
  | nil => rfl
  | cons v rest =>
    simp only [unifiedItems, isKey.areKeys, isKey_unified v, areKeys_unifiedItems rest]

end

theorem isKey_of_same {a b : Value} (h : a.same b = true) : a.isKey = b.isKey := by
  rw [← isKey_unified a, ← isKey_unified b, same_iff.mp h]

def distinct : List Value → List Value
  | [] => []
  | v :: rest => v :: (distinct rest).filter (!v.same ·)

theorem pairwise_distinct (items : List Value) :
    (distinct items).Pairwise fun a b => a.same b = false := by
  induction items with
  | nil => exact List.Pairwise.nil
  | cons v rest ih =>
    refine List.Pairwise.cons ?_ (ih.filter _)
    intro w h
    simpa using (List.mem_filter.mp h).2

theorem mem_of_mem_distinct {items : List Value} {v : Value} (h : v ∈ distinct items) :
    v ∈ items := by
  induction items with
  | nil => simp [distinct] at h
  | cons w rest ih =>
    rcases List.mem_cons.mp h with rfl | h
    · exact List.mem_cons_self
    · exact List.mem_cons_of_mem _ (ih (List.mem_filter.mp h).1)

/-! ### Order -/

mutual

/-- Whether data comes before other data; `none` if the two have no order. -/
def before? (a b : Value) : Option Bool :=
  match a, b with
  | .text s, .text t => some (decide (s < t))
  | .list xs, .list ys | .tuple xs, .tuple ys => itemsBefore? xs ys
  | a, b =>
    match a.magnitude?, b.magnitude? with
    | some m, some n => some (m.compare? n == some .lt)
    | _, _ => none

/-- Whether a list comes before another: their first difference decides. -/
def itemsBefore? (xs ys : List Value) : Option Bool :=
  match xs, ys with
  | [], ys => some (!ys.isEmpty)
  | _, [] => some false
  | x :: xs, y :: ys => if x.same y then itemsBefore? xs ys else x.before? y

end

/-- Whether data is no larger than other data; `none` if the two have no
    order. -/
def upTo? (a b : Value) : Option Bool := (a.before? b).map fun isBefore => isBefore || a.same b

/-- Data in ascending order, if any two of them have an order. -/
def sorted? (items : List Value) : Option (List Value) :=
  if items.length ≤ 1 ∨ items.all fun a => items.all fun b => (a.before? b).isSome then
    some (items.mergeSort fun a b => b.before? a != some true)
  else none

def successor? : Value → Option Value
  | .bool b => some (.int (b.toNat + 1))
  | .int n => some (.int (n + 1))
  | .float x => some (.float (x + 1.0))
  | _ => none

/-- The whole number that data stands for where only whole numbers do: truth
    values count. -/
def index? : Value → Option Int
  | .bool b => some b.toNat
  | .int n => some n
  | _ => none

end Value

end KeyFigures
