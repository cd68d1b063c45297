/-
  KeyFigures/Cache/Shared.lean
  ============================
  **A cache with those who wait for it.**

  A shared cache also knows every flight under way, registered or not, with
  its key and the callers that wait for it.  A landing answers exactly the
  callers of its flight.  A caller that gives up leaves its flight, and the
  flight goes on.

  `Event` lists what can happen and `step` says what it leads to; a run is a
  list of events.
-/
import KeyFigures.Cache.Basic
import KeyFigures.Log.Journal

namespace KeyFigures

structure Flight (ι : Type) where
  number : Nat
  key : CacheKey
  /-- Those who wait for it, in the order in which they joined. -/
  waiting : List ι
deriving DecidableEq, Repr

/-- A cache, what its clock shows, and the flights under way. -/
structure SharedCache (ι : Type) where
  cache : Cache
  now : Except TimeFault Moment
  flights : List (Flight ι) := []
deriving Repr

namespace SharedCache

variable {ι : Type}

instance : Inhabited (SharedCache ι) := ⟨{ cache := default, now := .ok default }⟩

def time (s : SharedCache ι) : Moment := s.now.toOption.getD default

/-- The fault that keeps a kept result from being looked at: its age is asked
    for, and the clock shows no time. -/
def blocked? (s : SharedCache ι) (key : CacheKey) : Option TimeFault :=
  match s.now with
  | .error fault =>
    if s.cache.limits.lifetime.isSome && (s.cache.kept? key).isSome then some fault else none
  | .ok _ => none

/-- The entry of a key unless it is too old. -/
def get? (s : SharedCache ι) (key : CacheKey) : Attempt (Option CacheEntry) :=
  match s.blocked? key with
  | some fault => .error (.time fault)
  | none => .ok (s.cache.get? s.time key)

def flight? (s : SharedCache ι) (n : Nat) : Option (Flight ι) := s.flights.find? (·.number == n)

/-- Asks for the result of a key on behalf of a caller, who waits unless the
    result is at hand. -/
def request (s : SharedCache ι) (caller : ι) (key : CacheKey) : SharedCache ι × Cache.Lookup :=
  match s.cache.request s.time key with
  | (c, .hit r) => ({ s with cache := c }, .hit r)
  | (c, .joined n) =>
    ({ s with
        cache := c
        flights := s.flights.map fun f =>
          if f.number = n then { f with waiting := f.waiting ++ [caller] } else f },
      .joined n)
  | (c, .started n) =>
    ({ s with cache := c, flights := s.flights ++ [⟨n, key, [caller]⟩] }, .started n)

/-- What a flight comes to: a result that is to be kept needs the time. -/
def arrival (s : SharedCache ι) (f : Flight ι) (outcome : Attempt Result) : Attempt Result :=
  match s.now, outcome with
  | .error fault, .ok r =>
    if s.cache.isRegistered f.key f.number then .error (.time fault) else .ok r
  | _, outcome => outcome

/-- Ends a flight; the second part tells what became of its result. -/
def land (s : SharedCache ι) (f : Flight ι) (outcome : Attempt Result) :
    SharedCache ι × Cache.Landing :=
  let (c, landing) := s.cache.land s.time f.key f.number outcome
  ({ s with cache := c, flights := s.flights.filter (·.number != f.number) }, landing)

def leave [DecidableEq ι] (s : SharedCache ι) (caller : ι) : SharedCache ι :=
  { s with flights := s.flights.map fun f => { f with waiting := f.waiting.filter (· ≠ caller) } }

def isWaiting [DecidableEq ι] (s : SharedCache ι) (caller : ι) : Bool :=
  s.flights.any (·.waiting.contains caller)

/-! ### Runs -/

/-- What can happen to a shared cache. -/
inductive Event (ι : Type) where
  | request (caller : ι) (key : CacheKey)
  /-- The flight of that number comes to its end. -/
  | land (flight : Nat) (outcome : Attempt Result)
  | leave (caller : ι)
  | evict (key : CacheKey)
  | invalidate (entity year : Value)
  | clear
  | clock (now : Except TimeFault Moment)
deriving Repr

/-- What a caller is told. -/
structure Answer (ι : Type) where
  caller : ι
  outcome : Attempt Result
deriving Repr

/-- What an event leads to, and the callers that are answered. -/
def step [DecidableEq ι] (s : SharedCache ι) : Event ι → SharedCache ι × List (Answer ι)
  | .request caller key =>
    match s.blocked? key with
    | some fault => (s, [⟨caller, .error (.time fault)⟩])
    | none =>
      match s.request caller key with
      | (s, .hit r) => (s, [⟨caller, .ok r⟩])
      | (s, .joined _) | (s, .started _) => (s, [])
  | .land n outcome =>
    match s.flight? n with
    | some f =>
      let outcome := s.arrival f outcome
      ((s.land f outcome).1, f.waiting.map fun caller => ⟨caller, outcome⟩)
    | none => (s, [])
  | .leave caller => (s.leave caller, [])
  | .evict key => ({ s with cache := (s.cache.evict key).1 }, [])
  | .invalidate entity year => ({ s with cache := (s.cache.invalidate entity year).1 }, [])
  | .clear => ({ s with cache := s.cache.clear }, [])
  | .clock now => ({ s with now := now }, [])

/-- A run: one event after another. -/
def run [DecidableEq ι] (s : SharedCache ι) : List (Event ι) → SharedCache ι × List (Answer ι)
  | [] => (s, [])
  | e :: rest =>
    let (s, answers) := s.step e
    let (s, more) := s.run rest
    (s, answers ++ more)

def start (limits : CacheLimits) (now : Except TimeFault Moment) : SharedCache ι :=
  { cache := .empty limits, now := now }

theorem run_append [DecidableEq ι] (s : SharedCache ι) (before after : List (Event ι)) :
    s.run (before ++ after) =
      (((s.run before).1.run after).1, (s.run before).2 ++ ((s.run before).1.run after).2) := by
  induction before generalizing s with
  | nil => simp [run]
  | cons e rest ih => simp [run, ih]

end SharedCache

/-! ### Records -/

namespace Cache

def logger : String := "services.result_cache"

def Lookup.note (l : Lookup) (key : CacheKey) : Log.Recorded Unit :=
  match l with
  | .joined _ =>
    Log.event Log.debug logger "cache_flight_joined" [("formula_key", key.formula)]
  | .hit _ | .started _ => pure ()

def Landing.note (l : Landing) (key : CacheKey) : Log.Recorded Unit :=
  match l with
  | .stored evicted => evicted.forM fun e =>
    Log.event Log.debug logger "cache_entry_evicted" [("formula_key", e.key.formula)]
  | .stale =>
    Log.event Log.debug logger "cache_stale_flight_discarded" [("formula_key", key.formula)]
  | .failed => pure ()

/-- Records that results of an entity and a year were dropped. -/
def noteInvalidated (entity year : Value) (count : Nat) : Log.Recorded Unit := do
  if count ≠ 0 then
    Log.event Log.info logger "cache_invalidated"
      [("entity_id", entity), ("fiscal_year", year), ("count", .int count)]

end Cache

end KeyFigures
