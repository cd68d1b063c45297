/-
  KeyFigures/Formula/Term.lean
  ============================
  **Formula trees.**

  A key figure is an arithmetic expression over ledger accounts: references
  such as `[10]` or `[19-79]`, numbers, other formulas by name, the four
  operators, and parentheses, which are kept as nodes of their own.

  Codes, bounds and formula ids are data: the reader of formula text makes them
  texts, but a tree can be built from other data as well.  Two further nodes
  stand for what a loosely built tree can hold besides: an operation with an
  unknown symbol, and a thing that is no term at all.  No reader of formula
  text makes them; `Term.WellFormed` excludes them.

  A tree is read in two ways: `preorder` is the recursive traversal, and
  `visit` is the stack walk that the lists of references are taken from.
-/
import KeyFigures.Value.Shown

namespace KeyFigures

/-! ### Operators -/

/-- The arithmetic operators of the formula language. -/
inductive Operator where
  | add
  | sub
  | mul
  | div
deriving DecidableEq, Repr, Inhabited

namespace Operator

/-- Every operator, in the order of their declaration. -/
def all : List Operator := [.add, .sub, .mul, .div]

def symbol : Operator → Char
  | .add => '+'
  | .sub => '-'
  | .mul => '*'
  | .div => '/'

def name : Operator → String
  | .add => "ADD"
  | .sub => "SUB"
  | .mul => "MUL"
  | .div => "DIV"

/-- Binding strength: multiplication and division bind tighter. -/
def precedence : Operator → Nat
  | .mul | .div => 2
  | .add | .sub => 1

def ofChar? (c : Char) : Option Operator := all.find? (·.symbol == c)

def ofSymbol? (s : String) : Option Operator :=
  match s.toList with
  | [c] => ofChar? c
  | _ => none

def toValue (op : Operator) : Value := .choice ⟨"Operator", op.name, String.singleton op.symbol⟩

theorem ofChar?_symbol (op : Operator) : ofChar? op.symbol = some op := by
  cases op <;> rfl

def ofValue? (v : Value) : Option Operator := all.find? (·.toValue == v)

@[simp]
theorem ofValue?_toValue (op : Operator) : ofValue? op.toValue = some op := by
  cases op <;> decide +kernel

end Operator

/-! ### Account references -/

/-- Which accounts of a ledger a formula speaks of. -/
inductive AccountReference where
  /-- All accounts whose number starts with `code`. -/
  | starting (code : Value)
  /-- All accounts whose number lies between `first` and `last`, inclusive. -/
  | between (first last : Value)
deriving DecidableEq, Repr, Inhabited

def AccountReference.bracketed : AccountReference → String
  | .starting code => "[" ++ code.display ++ "]"
  | .between first last => "[" ++ first.display ++ "-" ++ last.display ++ "]"

/-! ### Terms -/

inductive Term where
  | account (ref : AccountReference)
  | constant (value : Decimal)
  | binary (left : Term) (op : Operator) (right : Term)
  | grouping (inner : Term)
  /-- Another formula, by its id. -/
  | formula (id : Value)
  /-- An operation whose symbol is no operator. -/
  | unsupported (left : Term) (symbol : Value) (right : Term)
  | foreign (thing : Value)
deriving DecidableEq, Repr, Inhabited

namespace Term

/-- Whether a tree is made of formula nodes only. -/
def WellFormed : Term → Prop
  | .account _ | .constant _ | .formula _ => True
  | .binary left _ right => left.WellFormed ∧ right.WellFormed
  | .grouping inner => inner.WellFormed
  | .unsupported .. | .foreign _ => False

def size : Term → Nat
  | .account _ | .constant _ | .formula _ | .foreign _ => 1
  | .binary left _ right => left.size + right.size + 1
  | .unsupported left _ right => left.size + right.size + 1
  | .grouping inner => inner.size + 1

theorem size_pos (t : Term) : 0 < t.size := by
  cases t <;> simp [size]

def nesting : Term → Nat
  | .account _ | .constant _ | .formula _ | .foreign _ => 0
  | .binary left _ right => max left.nesting right.nesting
  | .unsupported left _ right => max left.nesting right.nesting
  | .grouping inner => inner.nesting + 1

/-! ### Traversal -/

/-- The immediate parts of a node, from left to right. -/
def children : Term → List Term
  | .binary left _ right => [left, right]
  | .unsupported left _ right => [left, right]
  | .grouping inner => [inner]
  | _ => []

/-- Every node of a tree, a node before its parts and the parts from left to
    right. -/
def preorder : Term → List Term
  | .binary left op right => .binary left op right :: (left.preorder ++ right.preorder)
  | .unsupported left s right => .unsupported left s right :: (left.preorder ++ right.preorder)
  | .grouping inner => .grouping inner :: inner.preorder
  | t => [t]

/-- The number of nodes of all trees on a stack. -/
def stackSize (stack : List Term) : Nat := stack.foldr (fun t n => t.size + n) 0

theorem stackSize_children_lt (t : Term) (rest : List Term) :
    stackSize (t.children ++ rest) < stackSize (t :: rest) := by
  cases t <;> simp [stackSize, children, size] <;> omega

/-- Takes the top of the stack, puts its parts in its place with the leftmost
    on top, and goes on until the stack is empty. -/
def visit : List Term → List Term
  | [] => []
  | t :: rest => t :: visit (t.children ++ rest)
termination_by stack => stackSize stack
decreasing_by exact stackSize_children_lt t rest

/-- Every node of a tree, as the stack walk meets them. -/
def nodes (t : Term) : List Term := visit [t]

/-- The account references of a tree, from left to right, with repeats. -/
def accountReferences (t : Term) : List AccountReference :=
  t.nodes.filterMap fun
    | .account ref => some ref
    | _ => none

/-- The ids of the formulas a tree refers to, from left to right, with
    repeats. -/
def formulaReferences (t : Term) : List Value :=
  t.nodes.filterMap fun
    | .formula id => some id
    | _ => none

/-! ### Trees as data -/

/-- A tree as a record of records; a thing that is no term stands for itself. -/
def toRecord : Term → Value
  | .account (.starting code) => .record "AccountRef" [("code", code)]
  | .account (.between first last) => .record "AccountRange" [("start", first), ("end", last)]
  | .constant value => .record "Constant" [("value", .decimal value)]
  | .binary left op right =>
    .record "BinaryOp" [("left", left.toRecord), ("op", op.toValue), ("right", right.toRecord)]
  | .unsupported left symbol right =>
    .record "BinaryOp" [("left", left.toRecord), ("op", symbol), ("right", right.toRecord)]
  | .grouping inner => .record "Grouping" [("inner", inner.toRecord)]
  | .formula id => .record "FormulaRef" [("formula_id", id)]
  | .foreign thing => thing

/-- The tree that data describes; data that describes none is a thing that is
    no term. -/
def ofRecord : Value → Term
  | .record "AccountRef" [("code", code)] => .account (.starting code)
  | .record "AccountRange" [("start", first), ("end", last)] => .account (.between first last)
  | .record "Constant" [("value", .decimal value)] => .constant value
  | .record "BinaryOp" [("left", left), ("op", op), ("right", right)] =>
    match Operator.ofValue? op with
    | some op => .binary (ofRecord left) op (ofRecord right)
    | none => .unsupported (ofRecord left) op (ofRecord right)
  | .record "Grouping" [("inner", inner)] => .grouping (ofRecord inner)
  | .record "FormulaRef" [("formula_id", id)] => .formula id
  | thing => .foreign thing

theorem ofRecord_toRecord (t : Term) (h : t.WellFormed) : ofRecord t.toRecord = t := by
  induction t with
  | account ref => cases ref <;> simp [toRecord, ofRecord]
  | constant value => simp [toRecord, ofRecord]
  | binary left op right ihl ihr =>
    simp only [WellFormed] at h
    simp [toRecord, ofRecord, ihl h.1, ihr h.2]
  | grouping inner ih => simp [toRecord, ofRecord, ih h]
  | formula id => simp [toRecord, ofRecord]
  | unsupported => exact h.elim
  | foreign => exact h.elim

/-- A tree with the names of its nodes and fields. -/
def shown (t : Term) : String := t.toRecord.shown

end Term

end KeyFigures
