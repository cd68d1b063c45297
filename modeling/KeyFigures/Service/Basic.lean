/-
  KeyFigures/Service/Basic.lean
  =============================
  **The state of the calculation service.**

  A service finds formulas in its registry, ledgers in its source and results
  in its cache.  Besides these it keeps what is under way: the tasks of its
  callers, the computations behind the flights of the cache, and the turns that
  are ready to be taken.

  A service that is given a cache with entries works on it.  One that is given
  none, or one that holds nothing, has a cache of its own and puts the given
  one aside.
-/
import KeyFigures.Service.Slots
import KeyFigures.Service.Source
import KeyFigures.Service.Task
import KeyFigures.Cache.Shared
import KeyFigures.Evaluation

namespace KeyFigures

/-- The computation behind a flight. -/
structure Computation where
  flight : Nat
  entity : Value
  year : Value
  version : Value
  key : CacheKey
  formula : Compiled
  /-- What was bound in the line of work that started it. -/
  context : Log.Context
deriving DecidableEq, Repr, Inhabited

def Computation.fields (c : Computation) : List (String × Value) :=
  [("entity_id", c.entity), ("fiscal_year", c.year), ("formula_key", .text c.formula.key)]

def Computation.bound (c : Computation) : Log.Context := (c.context.bind c.fields).2

/-- A step of work that is ready to be taken. -/
inductive Turn where
  | call (c : Call)
  | begin (task : Nat)
  | takeOff (flight : Nat)
  /-- A flight goes on with the slot it was given. -/
  | granted (flight : Nat)
  /-- A flight goes on with its ledger. -/
  | fetched (flight : Nat)
  /-- The outcome of a flight is handed to a task. -/
  | deliver (task : Nat) (outcome : Attempt Result)
  /-- A task goes on with the outcome of its flight. -/
  | resume (task : Nat) (outcome : Attempt Result)
  /-- The outcome of a part is handed to its task. -/
  | report (task place : Nat) (outcome : Attempt Result)
  /-- A task goes on after its parts, or after the failure of one. -/
  | wake (task : Nat) (failure : Option Failure)

def Turn.weight : Turn → Nat
  | .call c => c.size
  | _ => 1

/-- Whether a turn takes up a call of a caller. -/
def Turn.isCallOf (turn : Turn) (name : String) : Bool :=
  match turn with
  | .call c => c.caller == name
  | _ => false

/-- The end of a call: the caller, the answer, and what is bound in the line
    of work of the caller afterwards. -/
structure Ending where
  caller : String
  outcome : Attempt Response
  context : Log.Context

structure Service where
  registry : Registry
  source : LedgerSource
  cache : SharedCache Nat
  /-- Whether the service has a cache of its own. -/
  ownCache : Bool
  aside : Option (SharedCache Nat)
  slots : Slots
  /-- The identifier of each request, in the order of the requests. -/
  requestId : Nat → String
  /-- Whether fetches wait until they are let go on. -/
  hold : Bool := false
  fetches : Nat := 0
  computations : List Computation := []
  fetching : List Nat := []
  tasks : List Task := []
  ready : List Turn := []
  /-- The ends of calls, the oldest first. -/
  endings : List Ending := []
  nextTask : Nat := 0
  nextRequest : Nat := 0
  journal : Log.Journal := {}

namespace Service

/-- The cache that a service works on, and whether it is one of its own. -/
def cacheOf (given : Option (SharedCache Nat)) (own : SharedCache Nat) : SharedCache Nat × Bool :=
  match given with
  | some c => if c.cache.size = 0 then (own, true) else (c, false)
  | none => (own, true)

def start (registry : Registry) (source : LedgerSource) (settings : Settings)
    (given : Option (SharedCache Nat)) (now : Except TimeFault Moment) (requestId : Nat → String) : Service :=
  let (cache, own) := cacheOf given (.start (.ofSettings settings) now)
  { registry := registry
    source := source
    cache := cache
    ownCache := own
    aside := if own then given else none
    slots := { free := settings.concurrencyLimit }
    requestId := requestId }

/-! ### Parts of the state -/

def task? (s : Service) (number : Nat) : Option Task := s.tasks.find? (·.number == number)

def computation? (s : Service) (flight : Nat) : Option Computation :=
  s.computations.find? (·.flight == flight)

def enqueue (s : Service) (turns : List Turn) : Service := { s with ready := s.ready ++ turns }

def record {α : Type} (s : Service) (context : Log.Context) (work : Log.Recorded α) :
    Attempt α × Service :=
  let (r, j) := (work.run.run { s.journal with context := context } : Id _)
  (r, { s with journal := { j with context := s.journal.context } })

/-! ### Ends of tasks -/

def finish (s : Service) (caller : String) (outcome : Attempt Response) (context : Log.Context) :
    Service := { s with endings := s.endings ++ [⟨caller, outcome, context⟩] }

/-- The parts of a task, and their parts. -/
def within (s : Service) (number : Nat) : List Task :=
  let parts := s.tasks.filter (·.isPartOf number)
  parts ++ parts.flatMap fun p => s.tasks.filter (·.isPartOf p.number)

/-- Gives up tasks: they are forgotten, and those that wait for a flight leave
    it. -/
def abandon (s : Service) (dropped : List Task) : Service :=
  { s with
    cache := dropped.foldl (fun c t => c.leave t.number) s.cache
    tasks := s.tasks.filter fun t => !dropped.any (·.number == t.number) }

def conclude (s : Service) (t : Task) (outcome : Attempt Response) : Service :=
  let s := { s with tasks := s.tasks.filter (·.number != t.number) }
  match t.owner with
  | .caller name saved => s.finish name outcome (t.context.restore saved)
  | .task number place =>
    match outcome with
    | .ok (.figure r) => s.enqueue [.report number place (.ok r)]
    | .ok (.series _) => s
    | .error f => s.enqueue [.report number place (.error f)]

/-! ### Tasks -/

/-- Adds the parts of a task as tasks that are ready to begin. -/
def spawn (s : Service) (t : Task) : Service :=
  let parts := t.job.parts.zipIdx.map fun (f, place) =>
    ({ number := s.nextTask + place
       owner := .task t.number place
       formula := t.formula
       version := t.version
       job := .figure f
       context := t.context } : Task)
  { s with
    tasks := s.tasks ++ parts
    ready := s.ready ++ parts.map fun p => .begin p.number
    nextTask := s.nextTask + parts.length }

/-- Asks the cache for the figure of a key; the computation of a new flight
    knows entity and year as they were given. -/
def request (s : Service) (t : Task) (entity year : Value) (key : CacheKey) : Service :=
  let (cache, lookup) := s.cache.request t.number key
  let (_, s) := { s with cache := cache }.record t.context (lookup.note key)
  match lookup with
  | .hit r => s.conclude t (.ok (.figure r))
  | .joined _ => s
  | .started flight =>
    let c : Computation := ⟨flight, entity, year, t.version, key, t.formula, t.context⟩
    { s with computations := s.computations ++ [c], ready := s.ready ++ [.takeOff flight] }

def lookUp (s : Service) (t : Task) (entity year : Value) : Service :=
  match CacheKey.ofValues entity year t.version (.text t.formula.key) with
  | .error f => s.conclude t (.error f)
  | .ok key =>
    match s.cache.blocked? key with
    | some fault => s.conclude t (.error (.time fault))
    | none => s.request t entity year key

def begin (s : Service) (t : Task) : Service :=
  match t.job.check with
  | .error f => s.conclude t (.error f)
  | .ok () =>
    match t.job with
    | .figure (.single entity year) => s.lookUp t entity year
    | _ => s.spawn t

/-- Takes up a call: its formula is compiled, an identifier is bound for the
    length of the call, and its task begins. -/
def takeUp (s : Service) (c : Call) : Service :=
  let prepared : Attempt (Compiled × Job) := do
    let formula ← s.registry.compile c.formula
    let job ← c.job
    .ok (formula, job)
  match prepared with
  | .error f => s.finish c.caller (.error f) c.context
  | .ok (formula, job) =>
    let (saved, context) := c.context.bind [("request_id", .text (s.requestId s.nextRequest))]
    match saved with
    | .error f => s.finish c.caller (.error f) context
    | .ok saved =>
      let (_, s) := { s with nextRequest := s.nextRequest + 1 }.record context (c.note formula.key)
      let t : Task := {
        number := s.nextTask
        owner := .caller c.caller saved
        formula := formula
        version := c.version
        job := job
        context := context }
      { s with tasks := s.tasks ++ [t], nextTask := s.nextTask + 1 }.begin t

/-- Goes on with the outcome of a flight; a missing ledger makes an invalid
    result. -/
def resume (s : Service) (t : Task) (outcome : Attempt Result) : Service :=
  s.conclude t ((Aggregate.contribution t.formula.kind outcome).map .figure)

/-- Takes in the outcome of a part.  The task goes on when all parts have a
    result, or when one has failed. -/
def collect (s : Service) (t : Task) (place : Nat) (outcome : Attempt Result) : Service :=
  match outcome with
  | .ok r =>
    let t := { t with results := t.results ++ [(place, r)] }
    let s := { s with tasks := s.tasks.map fun u => if u.number = t.number then t else u }
    if t.isComplete then s.enqueue [.wake t.number none] else s
  | .error f => s.enqueue [.wake t.number (some f)]

/-- Goes on after the parts: with their results, or with the failure of one, in
    which case the others are given up. -/
def goOn (s : Service) (t : Task) (failure : Option Failure) : Service :=
  match failure with
  | some f => (s.abandon (s.within t.number)).conclude t (.error f)
  | none =>
    let (outcome, s) := s.record t.context t.respond
    s.conclude t outcome

/-! ### Flights -/

def releaseSlot (s : Service) : Service :=
  let (slots, next) := s.slots.release
  { s with slots := slots }.enqueue (next.map Turn.granted).toList

/-- Ends a flight and hands its outcome to the tasks that wait for it. -/
def land (s : Service) (c : Computation) (outcome : Attempt Result) : Service :=
  let s := { s with computations := s.computations.filter (·.flight != c.flight) }
  match s.cache.flight? c.flight with
  | none => s
  | some f =>
    let outcome := s.cache.arrival f outcome
    let (cache, landing) := s.cache.land f outcome
    let (_, s) := { s with cache := cache }.record c.context (landing.note c.key)
    s.enqueue (f.waiting.map fun task => .deliver task outcome)

/-- Evaluates a formula on its ledger and records that. -/
def evaluation (c : Computation) (ledger : Ledger) : Log.Recorded Result := do
  let r ← evaluate c.formula.tree ledger.balances c.formula.kind
  Log.event Log.debug "services.calculation" "evaluation_computed"
    [("is_valid", .bool r.isValid), ("warning_count", .int r.warnings.length)]
  return r

/-- Fetches the ledger of a computation, gives the slot back, evaluates the
    formula and ends the flight. -/
def compute (s : Service) (c : Computation) : Service :=
  let (fetched, s) := { s with fetches := s.fetches + 1 }.record c.bound
    (s.source.fetch c.entity c.year c.version)
  let s := s.releaseSlot
  match fetched with
  | .error f => s.land c (.error f)
  | .ok ledger =>
    let (outcome, s) := s.record c.bound (evaluation c ledger)
    s.land c outcome

/-- Starts to fetch; a fetch that is held waits. -/
def fetch (s : Service) (c : Computation) : Service :=
  if s.hold then { s with fetching := s.fetching ++ [c.flight] } else s.compute c

/-- Starts a flight: it fetches as soon as it has a slot. -/
def takeOff (s : Service) (c : Computation) : Service :=
  let (slots, isGranted) := s.slots.acquire c.flight
  let s := { s with slots := slots }
  if isGranted then s.fetch c else s

def useGranted (s : Service) (c : Computation) : Service :=
  let (slots, next) := s.slots.proceed c.flight
  ({ s with slots := slots }.enqueue (next.map Turn.granted).toList).fetch c

end Service

end KeyFigures
