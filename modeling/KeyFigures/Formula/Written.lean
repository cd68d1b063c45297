/-
  KeyFigures/Formula/Written.lean
  ===============================
  **Formula trees in writing.**

  The canonical text of a tree has one blank on each side of an operator and no
  other.  Parentheses of the source are written again; a tree that was put
  together without them gets parentheses exactly where its shape would be lost
  otherwise (`Term.parenthesized`).

  The language has no negative numbers: one is written as a difference from
  zero, in parentheses.
-/
import KeyFigures.Formula.Term
import KeyFigures.Decimal.Arithmetic
import KeyFigures.Failure

namespace KeyFigures

/-! ### Where parentheses are due -/

/-- The binding strength of the operation at the root, if there is one. -/
def Term.precedence? : Term → Option Nat
  | .binary _ op _ => some op.precedence
  | _ => none

/-- Whether a left operand binds looser than its operator. -/
def Term.needsLeft (op : Operator) (left : Term) : Bool :=
  match left.precedence? with
  | some p => decide (p < op.precedence)
  | none => false

/-- Whether a right operand binds no tighter than its operator. -/
def Term.needsRight (op : Operator) (right : Term) : Bool :=
  match right.precedence? with
  | some p => decide (p ≤ op.precedence)
  | none => false

/-- A tree with parentheses added where its canonical text has them. -/
def Term.parenthesized : Term → Term
  | .binary left op right =>
    .binary (if left.needsLeft op then .grouping left.parenthesized else left.parenthesized) op
      (if right.needsRight op then .grouping right.parenthesized else right.parenthesized)
  | .grouping inner => .grouping inner.parenthesized
  | t => t

/-! ### Canonical text -/

def constantChars (value : Decimal) : Attempt (List Char) :=
  match Decimal.order value .zero with
  | .error fault => .error (.number fault)
  | .ok .lt => do
    let positive ← Attempt.ofDecimal value.neg
    .ok ("(0 - ".toList ++ positive.plainChars ++ [')'])
  | .ok _ => .ok value.plainChars

/-- A text, in parentheses if they are due. -/
def enclosed (due : Bool) (cs : List Char) : List Char := if due then '(' :: cs ++ [')'] else cs

/-- Whether a node is an operation, known or unknown. -/
def Term.isOperation : Term → Bool
  | .binary .. | .unsupported .. => true
  | _ => false

def Term.chars : Term → Attempt (List Char)
  | .account ref => .ok ref.bracketed.toList
  | .constant value => constantChars value
  | .formula id => .ok ('\x7b' :: id.display.toList ++ ['\x7d'])
  | .grouping inner => do
    let cs ← inner.chars
    .ok (enclosed true cs)
  | .binary left op right => do
    let l ← left.chars
    let r ← right.chars
    .ok (enclosed (left.needsLeft op) l ++ [' ', op.symbol, ' ']
      ++ enclosed (right.needsRight op) r)
  | .unsupported left _ right => do
    let _ ← left.chars
    if left.isOperation then .error .missingAttribute
    else
      let _ ← right.chars
      .error .missingAttribute
  | .foreign thing => .error (.misuse (.notATerm thing.shown))

/-! ### Trees of equal numbers -/

def AccountReference.same : AccountReference → AccountReference → Bool
  | .starting a, .starting b => a.same b
  | .between a b, .between c d => a.same c && b.same d
  | _, _ => false

/-- Whether two trees have the same nodes, numbers being compared by value. -/
def Term.equalValue : Term → Term → Attempt Bool
  | .account a, .account b => .ok (a.same b)
  | .constant x, .constant y => Attempt.ofDecimal (x.equalValue y)
  | .formula a, .formula b => .ok (a.same b)
  | .foreign a, .foreign b => .ok (a.same b)
  | .grouping a, .grouping b => a.equalValue b
  | .binary l₁ o₁ r₁, .binary l₂ o₂ r₂ => do
    if (← l₁.equalValue l₂) && o₁ == o₂ then r₁.equalValue r₂ else .ok false
  | .unsupported l₁ s₁ r₁, .unsupported l₂ s₂ r₂ => do
    if (← l₁.equalValue l₂) && s₁.same s₂ then r₁.equalValue r₂ else .ok false
  | _, _ => .ok false

def Term.toText (t : Term) : Attempt String := t.chars.map String.ofList

end KeyFigures
