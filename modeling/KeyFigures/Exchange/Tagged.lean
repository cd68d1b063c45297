/-
  KeyFigures/Exchange/Tagged.lean
  ===============================
  **Every kind of data in plain data.**

  Plain data has no decimals, points in time, sets or formula trees.  An object
  whose only member has a name with a dollar sign stands for such a leaf:
  `$decimal`, `$datetime`, `$date`, `$kind`, `$tuple`, `$set` and `$term`.  A
  set keeps the first of several equal members.
-/
import KeyFigures.Exchange.Formula
import KeyFigures.Result
import KeyFigures.Time.Reading

namespace KeyFigures.Value

def momentOf (v : Value) : Attempt Value := do
  let text ← Attempt.ofTyped v.text?
  (Attempt.ofTime (Moment.ofText text)).map .moment

def dayOf (v : Value) : Attempt Value := do
  let text ← Attempt.ofTyped v.text?
  (Attempt.ofTime (Day.ofText text)).map .day

/-- The set of some data, of which each has to be a key. -/
def setOf (items : List Value) : Attempt Value :=
  if items.all isKey then .ok (.set (distinct items)) else Attempt.mistyped

mutual

def untagged : Value → Attempt Value
  | .object [("$decimal", d)] => d.toDecimal.map .decimal
  | .object [("$datetime", t)] => momentOf t
  | .object [("$date", t)] => dayOf t
  | .object [("$kind", k)] => (ResultKind.ofValue k).map ResultKind.toValue
  | .object [("$tuple", v)] => (untaggedParts v).map .tuple
  | .object [("$set", v)] => do
    let items ← untaggedParts v
    setOf items
  | .object [("$term", t)] => (Term.ofData t).map Term.toRecord
  | .object members => (untaggedMembers members).map .object
  | .list items => (untaggedItems items).map .list
  | v => .ok v

/-- The data that the parts of data stand for. -/
def untaggedParts : Value → Attempt (List Value)
  | .list items => untaggedItems items
  | v => Attempt.ofTyped v.items?

/-- The data that the items of a list stand for. -/
def untaggedItems : List Value → Attempt (List Value)
  | [] => .ok []
  | v :: rest => do
    let v ← v.untagged
    let rest ← untaggedItems rest
    .ok (v :: rest)

/-- The data that the members of an object stand for. -/
def untaggedMembers : List (String × Value) → Attempt (List (String × Value))
  | [] => .ok []
  | (name, v) :: rest => do
    let v ← v.untagged
    let rest ← untaggedMembers rest
    .ok ((name, v) :: rest)

end

end KeyFigures.Value
