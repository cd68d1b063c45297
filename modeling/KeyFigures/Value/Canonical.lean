/-
  KeyFigures/Value/Canonical.lean
  ===============================
  **The canonical text of structured data.**

  Equal data has one canonical text, whatever the order of its members: names
  are sorted by code point, there are no blanks, only ASCII characters, and a
  decimal is written in its normal form, so that `1.0` and `1.00` agree.  Sets
  and records have no canonical text.
-/
import KeyFigures.Value.Json
import KeyFigures.Decimal.Arithmetic
import KeyFigures.Failure

namespace KeyFigures.Value

open KeyFigures.Text

def joined : List (List Char) → List Char
  | [] => []
  | [cs] => cs
  | cs :: rest => cs ++ ',' :: joined rest

mutual

def canonicalChars : Value → Attempt (List Char)
  | .null => .ok "null".toList
  | .bool b => .ok (if b then "true".toList else "false".toList)
  | .int n => .ok (signedDigits n)
  | .float x => .ok (jsonFloat x)
  | .text s => .ok (jsonText s)
  | .decimal d => (Attempt.ofDecimal d.normalize).map fun d => jsonText d.toText
  | .moment m => .ok (jsonText m.toText)
  | .day d => .ok (jsonText d.toText)
  | .choice c => .ok (jsonText c.text)
  | .record typeName _ => .error (.misuse (.notSerializable typeName))
  | .set _ => .error (.misuse (.notSerializable "set"))
  | .list items | .tuple items => do
    let parts ← canonicalItems items
    .ok ('[' :: joined parts ++ [']'])
  | .object members => do
    let parts ← (sortMembers (canonicalMembers members)).mapM (·.2)
    .ok ('\x7b' :: joined parts ++ ['\x7d'])

/-- The canonical texts of the items of a list. -/
def canonicalItems : List Value → Attempt (List (List Char))
  | [] => .ok []
  | v :: rest => do
    let part ← v.canonicalChars
    let parts ← canonicalItems rest
    .ok (part :: parts)

/-- The canonical texts of the members of an object, by name.  A member without
    one shows only when its turn comes in the sorted order. -/
def canonicalMembers : List (String × Value) → List (String × Attempt (List Char))
  | [] => []
  | (name, v) :: rest =>
    (name, v.canonicalChars.map fun part => jsonText name ++ ':' :: part) :: canonicalMembers rest

end

def canonical (v : Value) : Attempt String := v.canonicalChars.map String.ofList

end KeyFigures.Value
