/-
  KeyFigures/Value/Number.lean
  ============================
  **The decimal that data denotes.**

  A text is read, a whole number or a double is taken exactly, and a list of
  three parts is put together: the sign as zero or one, the digits, and the
  exponent or a letter for a number that is not finite.
-/
import KeyFigures.Failure

namespace KeyFigures

/-- The sign of a decimal from its part: zero or one. -/
def Decimal.signPart (v : Value) : Attempt (List Char) :=
  match v.index? with
  | some 0 => .ok []
  | some 1 => .ok ['-']
  | _ => Attempt.refuse (.decimalParts .sign)

/-- The name or the power of ten that the third part of a decimal gives; the
    first component says whether digits are left out. -/
def Decimal.powerPart (v : Value) : Attempt (Bool × String × String) :=
  match v with
  | .text "F" => .ok (true, "Infinity", "")
  | .text "n" => .ok (false, "NaN", "")
  | .text "N" => .ok (false, "sNaN", "")
  | .text _ => Attempt.refuse (.decimalParts .word)
  | v =>
    match v.index? with
    | some e => .ok (false, "", "E" ++ intText e)
    | none => Attempt.refuse (.decimalParts .exponent)

def Decimal.digitPart (v : Value) : Attempt Char :=
  match v.index? with
  | some n =>
    if 0 ≤ n ∧ n ≤ 9 then .ok (Nat.digitChar n.toNat)
    else Attempt.refuse (.decimalParts .coefficient)
  | none => Attempt.refuse (.decimalParts .coefficient)

def Decimal.digitsPart (v : Value) : Attempt (List Char) :=
  match v with
  | .list items | .tuple items => items.mapM Decimal.digitPart
  | _ => Attempt.refuse (.decimalParts .coefficient)

def Decimal.ofPartValues (items : List Value) : Attempt Decimal :=
  match items with
  | [sign, coefficient, exponent] => do
    let sign ← Decimal.signPart sign
    let (isBare, name, power) ← Decimal.powerPart exponent
    let ds ← Decimal.digitsPart coefficient
    let ds := if isBare then [] else if ds.isEmpty && name.isEmpty then ['0'] else ds
    Attempt.ofDecimal (Decimal.ofText (String.ofList sign ++ name ++ String.ofList ds ++ power))
  | _ => Attempt.refuse (.decimalParts .count)

def Value.toDecimal : Value → Attempt Decimal
  | .text s => Attempt.ofDecimal (Decimal.ofText s)
  | .decimal d => .ok d
  | .float x => .ok (Binary.exact x)
  | .list items | .tuple items => Decimal.ofPartValues items
  | v => do
    let n ← Attempt.ofTyped v.index?
    .ok (.finite (decide (n < 0)) n.natAbs 0)

end KeyFigures
