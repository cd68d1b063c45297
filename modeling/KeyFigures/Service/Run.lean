/-
  KeyFigures/Service/Run.lean
  ===========================
  **How a service runs.**

  Turns that are ready are taken one at a time.  `take` takes any of them, so
  that a run can order its turns as it likes; `settle` takes the longest ready
  one until none is left.  A turn of a task that was given up does nothing.

  `Event` lists what can happen to a service from outside and the taking of a
  turn, and `step` says what it leads to.
-/
import KeyFigures.Service.Basic

namespace KeyFigures.Service

/-! ### Turns -/

/-- Does something with the task of a number, if it is still under way. -/
def withTask (s : Service) (number : Nat) (f : Task → Service) : Service :=
  match s.task? number with
  | some t => f t
  | none => s

def withComputation (s : Service) (flight : Nat) (f : Computation → Service) : Service :=
  match s.computation? flight with
  | some c => f c
  | none => s

def perform (s : Service) : Turn → Service
  | .call c => s.takeUp c
  | .begin task => s.withTask task s.begin
  | .takeOff flight => s.withComputation flight s.takeOff
  | .granted flight => s.withComputation flight s.useGranted
  | .fetched flight => s.withComputation flight s.compute
  | .deliver task outcome => s.withTask task fun _ => s.enqueue [.resume task outcome]
  | .resume task outcome => s.withTask task fun t => s.resume t outcome
  | .report task place outcome => s.withTask task fun t => s.collect t place outcome
  | .wake task failure => s.withTask task fun t => s.goOn t failure

/-- Takes the turn in a place among those that are ready. -/
def take (s : Service) (place : Nat) : Service :=
  match s.ready[place]? with
  | some turn => { s with ready := s.ready.eraseIdx place }.perform turn
  | none => s

/-- Takes the longest ready turn, at most `fuel` times. -/
def takeAll : (fuel : Nat) → Service → Service
  | 0, s => s
  | fuel + 1, s => if s.ready.isEmpty then s else takeAll fuel (s.take 0)

/-- A bound for the turns until nothing is ready: every task has at most five
    and every flight at most three. -/
def turnBound (s : Service) : Nat :=
  8 * (s.ready.foldr (fun t n => t.weight + n) 0 + s.tasks.foldr (fun t n => t.job.size + n) 0 +
    s.computations.length + 1)

def settle (s : Service) : Service := takeAll s.turnBound s

/-! ### What callers do -/

def submit (s : Service) (calls : List Call) : Service := s.enqueue (calls.map .call)

/-- A caller gives up: the tasks of the call are given up, and the flights they
    wait for go on. -/
def cancel (s : Service) (name : String) : Service :=
  let tasks := s.tasks.filter (·.isOf name)
  let s := s.abandon (tasks ++ tasks.flatMap fun t => s.within t.number)
  { s with ready := s.ready.filter fun turn => !turn.isCallOf name }

/-- Whether a call of a caller is under way. -/
def isCalling (s : Service) (name : String) : Bool :=
  s.tasks.any (·.isOf name) || s.ready.any (·.isCallOf name)

def setHold (s : Service) (hold : Bool) : Service := { s with hold := hold }

def letFlightGo (s : Service) (flight : Nat) : Service :=
  { s with fetching := s.fetching.erase flight }.enqueue [.fetched flight]

/-- Lets the longest waiting fetch for an entity, a year and a version go on. -/
def letGo (s : Service) (entity year version : Value) : Service :=
  let wanted (flight : Nat) : Bool :=
    (s.computation? flight).any fun c =>
      c.entity.same entity && c.year.same year && c.version.same version
  match s.fetching.find? wanted with
  | some flight => s.letFlightGo flight
  | none => s

/-- Goes on until all calls have ended, where every held fetch takes its
    time: a ledger comes when nothing else is left to do.  At most `fuel`
    fetches are waited for. -/
def serve (s : Service) : (fuel : Nat) → Service
  | 0 => s.settle
  | fuel + 1 =>
    let s := s.settle
    match s.fetching with
    | [] => s
    | flight :: _ => (s.letFlightGo flight).serve fuel

def addLedger (s : Service) (l : Ledger) : Attempt Service :=
  (s.source.add l).map fun source => { s with source := source }

def save (s : Service) (d : Definition) : Attempt Definition × Service :=
  match s.record s.journal.context (s.registry.saveRecorded d) with
  | (.ok (registry, d), s) => (.ok d, { s with registry := registry })
  | (.error f, s) => (.error f, s)

def withCache (s : Service) (cache : Cache) : Service :=
  { s with cache := { s.cache with cache := cache } }

def evict (s : Service) (key : CacheKey) : Service := s.withCache (s.cache.cache.evict key).1

/-- Drops the results of an entity and of a year from the cache, where one is
    given; the first part is the number of results. -/
def invalidate (s : Service) (entity year : Value) : Nat × Service :=
  let (cache, count) := s.cache.cache.invalidate entity year
  let (_, s) := (s.withCache cache).record s.journal.context
    (Cache.noteInvalidated entity year count)
  (count, s)

def clear (s : Service) : Service := s.withCache s.cache.cache.clear

/-- Sets the clock of a given cache; a cache of the service's own does not go by
    it. -/
def setClock (s : Service) (now : Except TimeFault Moment) : Service :=
  if s.ownCache then s else { s with cache := { s.cache with now := now } }

/-! ### Runs -/

/-- What can happen to a service. -/
inductive Event where
  /-- The turn in that place is taken. -/
  | take (place : Nat)
  | call (c : Call)
  | cancel (caller : String)
  | hold (isHeld : Bool)
  | letGo (entity year version : Value)
  | addLedger (l : Ledger)
  | save (d : Definition)
  | evict (key : CacheKey)
  | invalidate (entity year : Value)
  | clear
  /-- The clock of the cache shows another time. -/
  | clock (now : Except TimeFault Moment)

def step (s : Service) : Event → Service
  | .take place => s.take place
  | .call c => s.submit [c]
  | .cancel caller => s.cancel caller
  | .hold isHeld => s.setHold isHeld
  | .letGo entity year version => s.letGo entity year version
  | .addLedger l => (s.addLedger l).toOption.getD s
  | .save d => (s.save d).2
  | .evict key => s.evict key
  | .invalidate entity year => (s.invalidate entity year).2
  | .clear => s.clear
  | .clock now => { s with cache := { s.cache with now := now } }

/-- A run: one event after another. -/
def run (s : Service) (events : List Event) : Service := events.foldl step s

theorem run_append (s : Service) (before after : List Event) :
    s.run (before ++ after) = (s.run before).run after := List.foldl_append

/-- The answer to a call that is made alone and runs to its end. -/
def answer (s : Service) (c : Call) : Option (Attempt Response) :=
  ((s.submit [c]).settle.endings.find? (·.caller == c.caller)).map (·.outcome)

end KeyFigures.Service
