/-
  KeyFigures/Exchange/Clocks.lean
  ===============================
  **Clocks as data.**

  A clock is given by the text of the moment that it is set to, and moved on by
  a number of seconds, whole or not.
-/
import KeyFigures.Failure
import KeyFigures.Binary.Written
import KeyFigures.Time.Clock
import KeyFigures.Time.Reading

namespace KeyFigures

/-- A number of seconds; truth values count. -/
def Value.seconds (v : Value) : Attempt Float :=
  match v with
  | .float x => .ok x
  | v => do
    let n ← Attempt.ofTyped v.index?
    let x := Binary.nearest (decide (n < 0)) n.natAbs 0
    if x.isInf then .error (.range .double) else .ok x

/-- A clock that is set to the moment of a text. -/
def Clock.ofText (v : Value) : Attempt Clock := do
  let text ← Attempt.ofTyped v.text?
  (Attempt.ofTime (Moment.ofText text)).map .ofMoment

/-- A clock that is set to a moment, if one is given. -/
def Clock.ofData (v : Value) : Attempt Clock := if v.isTruthy then ofText v else .ok .standard

/-- What a clock shows, as a text. -/
def Clock.toData (c : Clock) : Attempt Value := do
  let m ← Attempt.ofTime c.now
  .ok (.text m.toText)

/-- Moves a clock on by a number of seconds. -/
def Clock.advanceBy (c : Clock) (v : Value) : Attempt Clock := v.seconds.map c.advance

end KeyFigures
