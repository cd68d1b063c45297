/-
  KeyFigures/Formula/Fingerprint.lean
  ===================================
  **The identity of a formula body.**

  A tree is described by plain data, tagged by node.  The digest of its
  canonical text, together with the result kind, is the formula's key: equal
  bodies share it, and every change of the body changes the text behind it.
  Numbers enter in normal form.
-/
import KeyFigures.Formula.Term
import KeyFigures.Value.Canonical
import KeyFigures.Digest.Sha256

namespace KeyFigures

def Value.digest (v : Value) : Attempt String := v.canonical.map Digest.ofText

def Term.payload : Term → Attempt Value
  | .account (.starting code) => .ok (.object [("t", .text "ref"), ("code", code)])
  | .account (.between first last) =>
    .ok (.object [("t", .text "range"), ("start", first), ("end", last)])
  | .constant value => .ok (.object [("t", .text "const"), ("value", .decimal value)])
  | .binary left op right => do
    let l ← left.payload
    let r ← right.payload
    .ok (.object [("t", .text "op"), ("op", .text (String.singleton op.symbol)), ("l", l), ("r", r)])
  | .grouping inner => do
    let v ← inner.payload
    .ok (.object [("t", .text "group"), ("inner", v)])
  | .formula id => .ok (.object [("t", .text "formula"), ("id", id)])
  | .unsupported .. => .error .missingAttribute
  | .foreign thing => .error (.misuse (.notATerm thing.shown))

/-- The data behind a formula key: the tree and the result kind. -/
def keyPayload (t : Term) (kind : Value) : Attempt Value := do
  let tree ← t.payload
  .ok (.object [("ast", tree), ("kind", kind)])

/-- How many digits of the digest make a formula key. -/
def keyLength : Nat := 32

/-- The key of a formula body: the first digits of the digest of its data. -/
def formulaKey (t : Term) (kind : Value) : Attempt String := do
  let data ← keyPayload t kind
  let digest ← data.digest
  .ok (String.ofList (digest.toList.take keyLength))

end KeyFigures
