/-
  KeyFigures/Cache/Limits.lean
  ============================
  **How many results are kept, and for how long.**

  Both limits are optional.  A lifetime is given in seconds as a double and an
  age is compared with it as a double too; since ages are whole microseconds,
  the lifetime comes down to the least number of microseconds whose double in
  seconds is not below it.
-/
import KeyFigures.Library.Settings
import KeyFigures.Binary.Written

namespace KeyFigures

/-- The limits of a cache. -/
structure CacheLimits where
  /-- How many results are kept; all if absent. -/
  maxEntries : Option Nat := none
  /-- From how many microseconds on a result is too old; never if absent. -/
  lifetime : Option Nat := none
  maxEntries_pos : ∀ n ∈ maxEntries, 1 ≤ n := by intro _ h; cases h
  lifetime_pos : ∀ n ∈ lifetime, 1 ≤ n := by intro _ h; cases h
deriving DecidableEq, Repr

namespace CacheLimits

def unlimited : CacheLimits := {}

instance : Inhabited CacheLimits := ⟨unlimited⟩

def beyondCalendar : Nat := Nat.pow 10 20

/-- The least positive number of microseconds that, in seconds as the nearest
    double, is not below a positive double; if there is none, a number that is
    never reached. -/
def microsReaching (seconds : Float) : Nat :=
  match Binary.parts seconds with
  | .finite false m q =>
    let (n, d) := Binary.ratio ((Binary.interval m q).1 * 1000000) (q - 2)
    if m % 2 = 0 then (n + d - 1) / d else n / d + 1
  | .finite true _ _ => 1
  | .infinite _ | .nan => beyondCalendar

/-- Limits of at least one result and one microsecond. -/
def ofBounds (maxEntries lifetime : Option Nat) : CacheLimits where
  maxEntries := maxEntries.map (max 1)
  lifetime := lifetime.map (max 1)
  maxEntries_pos := by
    intro n h
    obtain ⟨k, _, rfl⟩ := Option.map_eq_some_iff.mp h
    exact Nat.le_max_left 1 k
  lifetime_pos := by
    intro n h
    obtain ⟨k, _, rfl⟩ := Option.map_eq_some_iff.mp h
    exact Nat.le_max_left 1 k

def ofSettings (s : Settings) : CacheLimits :=
  ofBounds s.cacheMaxEntries (s.cacheSeconds.map microsReaching)

/-- Limits given as data; a bound below one and a time that is not positive are
    refused. -/
def ofData (maxEntries seconds : Value) : Attempt CacheLimits := do
  if !maxEntries.isNull then SettingsData.checkBound "max_entries" maxEntries
  if !seconds.isNull then SettingsData.checkSeconds "ttl_seconds" seconds
  let given : SettingsData :=
    { SettingsData.standard with cacheMaxEntries := maxEntries, cacheSeconds := seconds }
  .ok (ofSettings given.settings)

end CacheLimits

end KeyFigures
