/-
  KeyFigures/Cache/Basic.lean
  ===========================
  **Results kept for later, and computations under way.**

  A cache keeps results by entity, fiscal year, version and formula key, the
  least recently used first.  It also knows the computations under way, the
  flights: who asks for a result that is under way joins its flight, so that at
  most one flight per key is registered.  Flights are told apart by numbers.

  Dropping a key also drops the registration of its flight.  Such a flight
  still answers those who joined it, but what it brings is not kept.
-/
import KeyFigures.Cache.Limits
import KeyFigures.Result

namespace KeyFigures

/-- What identifies one evaluation.  Of data that counts as equal a key holds
    the common form. -/
structure CacheKey where
  entity : Value
  year : Value
  version : Value
  formula : Value
deriving DecidableEq, Repr, Inhabited

/-- The key of some data, each of which has to be a key itself. -/
def CacheKey.ofValues (entity year version formula : Value) : Attempt CacheKey :=
  if entity.isKey && year.isKey && version.isKey && formula.isKey then
    .ok ⟨entity.unified, year.unified, version.unified, formula.unified⟩
  else Attempt.mistyped

/-- Whether a key is of the entity and of the year, where one is given: null is
    none. -/
def CacheKey.isOf (key : CacheKey) (entity year : Value) : Bool :=
  (entity.isNull || key.entity == entity.unified) && (year.isNull || key.year == year.unified)

/-- A result that is kept, and when it was put there. -/
structure CacheEntry where
  key : CacheKey
  result : Result
  computedAt : Moment
deriving DecidableEq, Repr, Inhabited

structure Cache where
  limits : CacheLimits := {}
  /-- The results, the least recently used first. -/
  entries : List CacheEntry := []
  /-- The registered flights by key, with their numbers. -/
  flights : List (CacheKey × Nat) := []
  hits : Nat := 0
  misses : Nat := 0
  coalesced : Nat := 0
  evictions : Nat := 0
deriving DecidableEq, Repr, Inhabited

namespace Cache

def empty (limits : CacheLimits) : Cache := { limits := limits }

/-! ### Looking up -/

/-- Whether an entry is too old at a moment. -/
def isExpired (c : Cache) (now : Moment) (e : CacheEntry) : Bool :=
  match c.limits.lifetime with
  | none => false
  | some n => decide ((n : Int) ≤ now.universal - e.computedAt.universal)

/-- The entry of a key, too old or not. -/
def kept? (c : Cache) (key : CacheKey) : Option CacheEntry := c.entries.find? (·.key == key)

/-- The entry of a key unless it is too old; this does not count as a use. -/
def get? (c : Cache) (now : Moment) (key : CacheKey) : Option CacheEntry :=
  match c.kept? key with
  | some e => if c.isExpired now e then none else some e
  | none => none

/-- Whether a key has an entry that is not too old. -/
def contains (c : Cache) (now : Moment) (key : CacheKey) : Bool := (c.get? now key).isSome

def size (c : Cache) : Nat := c.entries.length

/-- The number of the registered flight of a key. -/
def flight? (c : Cache) (key : CacheKey) : Option Nat :=
  (c.flights.find? (·.1 == key)).map (·.2)

/-! ### Requests -/

/-- How a request is met. -/
inductive Lookup where
  | hit (result : Result)
  /-- The request waits for a flight under way. -/
  | joined (flight : Nat)
  | started (flight : Nat)
deriving DecidableEq, Repr

def dropEntry (c : Cache) (key : CacheKey) : Cache :=
  { c with entries := c.entries.filter (·.key != key) }

/-- Makes an entry the most recently used one. -/
def refresh (c : Cache) (e : CacheEntry) : Cache :=
  { c with entries := (c.dropEntry e.key).entries ++ [e] }

/-- Drops the entry of a key if it is too old, and counts it as evicted. -/
def expire (c : Cache) (now : Moment) (key : CacheKey) : Cache :=
  match c.kept? key with
  | some e =>
    if c.isExpired now e then { c.dropEntry key with evictions := c.evictions + 1 } else c
  | none => c

/-- Joins the flight of a key, or starts one.  A new flight is numbered by the
    misses before it. -/
def board (c : Cache) (key : CacheKey) : Cache × Lookup :=
  match c.flight? key with
  | some n => ({ c with coalesced := c.coalesced + 1 }, .joined n)
  | none =>
    ({ c with misses := c.misses + 1, flights := c.flights ++ [(key, c.misses)] },
      .started c.misses)

def request (c : Cache) (now : Moment) (key : CacheKey) : Cache × Lookup :=
  match c.get? now key with
  | some e => ({ c.refresh e with hits := c.hits + 1 }, .hit e.result)
  | none => (c.expire now key).board key

/-! ### Landing -/

/-- What came of the end of a flight. -/
inductive Landing where
  /-- The result is kept, at the expense of the given entries. -/
  | stored (evicted : List CacheEntry)
  /-- The flight was not registered any more, so its result is not kept. -/
  | stale
  | failed
deriving DecidableEq, Repr

/-- How many of the least recently used entries are over the limit. -/
def excess (c : Cache) : Nat :=
  match c.limits.maxEntries with
  | none => 0
  | some n => c.size - n

/-- Drops the least recently used entries that are over the limit. -/
def trim (c : Cache) : Cache :=
  { c with entries := c.entries.drop c.excess, evictions := c.evictions + c.excess }

/-- Puts in an entry as the most recently used one; the second part is what had
    to go. -/
def store (c : Cache) (e : CacheEntry) : Cache × List CacheEntry :=
  let c := c.refresh e
  (c.trim, c.entries.take c.excess)

/-- Whether a flight is the registered one of its key. -/
def isRegistered (c : Cache) (key : CacheKey) (flight : Nat) : Bool := c.flight? key == some flight

/-- Drops the registration of the flight of a key. -/
def detach (c : Cache) (key : CacheKey) : Cache :=
  { c with flights := c.flights.filter (·.1 != key) }

/-- Takes in what a flight came to.  Only a registered flight is kept, and only
    its own registration ends. -/
def land (c : Cache) (now : Moment) (key : CacheKey) (flight : Nat) (outcome : Attempt Result) :
    Cache × Landing :=
  match outcome with
  | .ok r =>
    if c.isRegistered key flight then
      let (c, evicted) := c.store ⟨key, r, now⟩
      (c.detach key, .stored evicted)
    else (c, .stale)
  | .error _ => (if c.isRegistered key flight then c.detach key else c, .failed)

/-! ### Dropping -/

/-- Drops a key: its entry and the registration of its flight.  The second part
    tells whether there was either. -/
def evict (c : Cache) (key : CacheKey) : Cache × Bool :=
  ((c.dropEntry key).detach key, (c.kept? key).isSome || (c.flight? key).isSome)

/-- Drops all keys of an entity and of a year, where one is given; the second
    part is the number of entries dropped. -/
def invalidate (c : Cache) (entity year : Value) : Cache × Nat :=
  ({ c with
      entries := c.entries.filter fun e => !e.key.isOf entity year
      flights := c.flights.filter fun f => !f.1.isOf entity year },
    (c.entries.filter fun e => e.key.isOf entity year).length)

def clear (c : Cache) : Cache := { c with entries := [], flights := [] }

/-! ### Counts -/

def requests (c : Cache) : Nat := c.hits + c.misses + c.coalesced

/-- The share of the requests that needed no flight of their own. -/
def hitRate (c : Cache) : Float :=
  if c.requests = 0 then 0.0
  else Float.ofNat (c.hits + c.coalesced) / Float.ofNat c.requests

/-! ### What each operation does to a key -/

theorem flight?_detach_self (c : Cache) (key : CacheKey) : (c.detach key).flight? key = none := by
  simp [detach, flight?]

theorem kept?_dropEntry_self (c : Cache) (key : CacheKey) :
    (c.dropEntry key).kept? key = none := by
  simp [dropEntry, kept?]

theorem size_trim_le (c : Cache) (n : Nat) (h : c.limits.maxEntries = some n) :
    c.trim.size ≤ n := by
  simp only [trim, size, List.length_drop, excess, h]
  omega

end Cache

end KeyFigures
