/-
  KeyFigures/Time/Clock.lean
  ==========================
  **A clock that moves only when it is told to.**

  The clock was set to a moment and has been moved on since; the seconds it
  was moved by are added up before they are added to the moment.
-/
import KeyFigures.Time.Moment

namespace KeyFigures

/-- A clock: the moment it was set to and the seconds it was moved on since. -/
structure Clock where
  setTo : Moment
  advanced : Float
deriving Inhabited

namespace Clock

/-- Noon of the first of January 2024, universal time. -/
def firstNoon : Moment :=
  ⟨(Day.ofCivil 2024 1 1).number * Moment.microsPerDay + 12 * 3600 * 1000000, some 0⟩

def ofMoment (m : Moment) : Clock := ⟨m, 0.0⟩

/-- A clock that shows noon of the first of January 2024. -/
def standard : Clock := .ofMoment firstNoon

/-- What the clock shows, unless it has been moved off the calendar. -/
def now (c : Clock) : Except TimeFault Moment := c.setTo.after c.advanced

def advance (c : Clock) (seconds : Float) : Clock := { c with advanced := c.advanced + seconds }

end Clock

end KeyFigures
