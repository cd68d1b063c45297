/-
  KeyFigures/Benchmarks.lean
  ==========================
  **Benchmark bands.**

  A key figure is rated against three thresholds.  If the excellent threshold
  is not below the poor one, higher values are better; otherwise lower ones
  are.
-/
import KeyFigures.Failure
import KeyFigures.Decimal.Arithmetic

namespace KeyFigures

/-- The bands of a rating. -/
inductive Rating where
  | excellent
  | good
  | fair
  | poor
deriving DecidableEq, Repr, Inhabited

def Rating.text : Rating → String
  | .excellent => "excellent"
  | .good => "good"
  | .fair => "fair"
  | .poor => "poor"

/-- The thresholds of a key figure. -/
structure Benchmarks where
  excellent : Decimal
  good : Decimal
  poor : Decimal
deriving DecidableEq, Repr, Inhabited

namespace Benchmarks

def higherIsBetter (b : Benchmarks) : Attempt Bool :=
  (Attempt.ofDecimal (b.excellent.order b.poor)).map (·.isGE)

/-- The band of a value among thresholds that are passed in ascending order of
    `compare value threshold`: reaching a threshold is enough for the first
    two, the third has to be passed. -/
def band (b : Benchmarks) (reached passed : Ordering → Bool) (value : Decimal) : Attempt Rating := do
  if reached (← Attempt.ofDecimal (value.order b.excellent)) then .ok .excellent
  else if reached (← Attempt.ofDecimal (value.order b.good)) then .ok .good
  else if passed (← Attempt.ofDecimal (value.order b.poor)) then .ok .fair
  else .ok .poor

def rate (b : Benchmarks) (value : Decimal) : Attempt Rating := do
  if ← b.higherIsBetter then b.band (·.isGE) (·.isGT) value
  else b.band (·.isLE) (·.isLT) value

/-- Thresholds from data: each is taken by its text, and none may be missing.
    Data that counts as nothing gives none. -/
def ofValue (v : Value) : Attempt (Option Benchmarks) :=
  if v.isTruthy then
    match v with
    | .object members => do
      let threshold (name : String) : Attempt Decimal :=
        match Value.lookup? members name with
        | some t => Attempt.ofDecimal (Decimal.ofText t.display)
        | none => .error (.missingKey (Text.quoted name))
      let excellent ← threshold "excellent"
      let good ← threshold "good"
      let poor ← threshold "poor"
      .ok (some ⟨excellent, good, poor⟩)
    | _ => .error (.misuse .mistyped)
  else .ok none

end Benchmarks

end KeyFigures
