/-
  KeyFigures/Service/FanOut.lean
  ==============================
  **Many jobs, a bounded number at a time.**

  A fan-out runs one job for each item.  With a limit, a job runs only while it
  has one of that many slots.  The results come in the order of the items,
  whatever the order in which the jobs finish.  The first failure ends the
  whole call: the jobs that are still running are cancelled and there is no
  partial result.

  Work is done in turns, the longest ready one first.  What a job comes to is
  reported to the call, and the call goes on a turn later; jobs that are ready
  before that still start and finish.  `Event` lists what can happen, `step`
  says what it leads to, and `run` is one event after another.
-/
import KeyFigures.Failure
import KeyFigures.Service.Slots

namespace KeyFigures

inductive Conclusion (β : Type) where
  | values (results : List β)
  | failed (cause : Failure)
  | cancelled
deriving Repr

/-- A step of a fan-out that is ready to be taken. -/
inductive FanOut.Turn (β : Type) where
  | begin (job : Nat)
  /-- A job goes on with the slot it was given. -/
  | granted (job : Nat)
  /-- What a job came to is reported to the call. -/
  | report (job : Nat) (outcome : Attempt β)
  | wake

/-- A fan-out on its way.  Jobs are known by their place among the items. -/
structure FanOut (β : Type) where
  size : Nat
  /-- What a job comes to at once, if it does. -/
  immediate : Nat → Option (Attempt β)
  /-- The slots, if the number of running jobs is bounded. -/
  slots : Option Slots
  /-- The turns that are ready, the longest ready one first. -/
  ready : List (FanOut.Turn β)
  /-- The jobs that have started, in that order. -/
  started : List Nat := []
  running : List Nat := []
  results : List (Nat × β) := []
  failure : Option Failure := none
  /-- The jobs that were running when the call ended early. -/
  cancelled : List Nat := []
  conclusion : Option (Conclusion β) := none

namespace FanOut

variable {β : Type}

/-- The limit that data gives, which is at least one; null is none.  A limit
    that is no whole number is never reached by counting. -/
def limitOf (v : Value) : Attempt (Option Nat) := do
  if v.isNull then .ok none
  else if ← Attempt.ofTyped (v.before? (.int 1)) then Attempt.refuse (.belowOne "limit" v.display)
  else .ok ((v.magnitude?.bind Magnitude.whole?).map Int.toNat)

/-- A fan-out before its first turn.  Without jobs the call goes on at once. -/
def start (size : Nat) (limit : Option Nat) (immediate : Nat → Option (Attempt β)) : FanOut β where
  size := size
  immediate := immediate
  slots := limit.map fun n => { free := n }
  ready := if size = 0 then [.wake] else (List.range size).map .begin

def enqueue (f : FanOut β) (turns : List (Turn β)) : FanOut β :=
  { f with ready := f.ready ++ turns }

/-- Changes the slots, and makes the turn of the job ready that gets one. -/
def withSlots (f : FanOut β) (change : Slots → Slots × Option Nat) : FanOut β :=
  match f.slots with
  | none => f
  | some slots =>
    let (slots, next) := change slots
    { f with slots := some slots }.enqueue (next.map Turn.granted).toList

/-- Ends a job: its slot is given back, and what it came to is reported. -/
def finish (f : FanOut β) (job : Nat) (outcome : Attempt β) : FanOut β :=
  (f.withSlots Slots.release).enqueue [.report job outcome]

def launch (f : FanOut β) (job : Nat) : FanOut β :=
  let f := { f with started := f.started ++ [job] }
  match f.immediate job with
  | some outcome => f.finish job outcome
  | none => { f with running := f.running ++ [job] }

/-- Begins a job: it starts as soon as it has a slot. -/
def begin (f : FanOut β) (job : Nat) : FanOut β :=
  match f.slots with
  | none => f.launch job
  | some slots =>
    let (slots, isTaken) := slots.acquire job
    let f := { f with slots := some slots }
    if isTaken then f.launch job else f

/-- Takes in what a job came to.  The call goes on when all jobs have a result,
    or when the first has failed. -/
def collect (f : FanOut β) (job : Nat) (outcome : Attempt β) : FanOut β :=
  if f.failure.isSome then f
  else
    match outcome with
    | .error cause => { f with failure := some cause }.enqueue [.wake]
    | .ok v =>
      let f := { f with results := f.results ++ [(job, v)] }
      if f.results.length = f.size then f.enqueue [.wake] else f

def ordered (f : FanOut β) : List β :=
  (List.range f.size).filterMap fun job => (f.results.find? (·.1 == job)).map (·.2)

/-- Ends the call early: the running jobs are cancelled and no turn is left. -/
def stop (f : FanOut β) (c : Conclusion β) : FanOut β :=
  { f with conclusion := some c, cancelled := f.running, running := [], ready := [] }

/-- Goes on with the call after its jobs, or after the failure of one. -/
def conclude (f : FanOut β) : FanOut β :=
  match f.failure with
  | some cause => f.stop (.failed cause)
  | none => { f with conclusion := some (.values f.ordered) }

def perform (f : FanOut β) : Turn β → FanOut β
  | .begin job => f.begin job
  | .granted job => (f.withSlots fun slots => slots.proceed job).launch job
  | .report job outcome => f.collect job outcome
  | .wake => f.conclude

def take (f : FanOut β) : FanOut β :=
  match f.ready with
  | turn :: rest => { f with ready := rest }.perform turn
  | [] => f

/-- Takes the longest ready turn, at most `fuel` times. -/
def takeAll : (fuel : Nat) → FanOut β → FanOut β
  | 0, f => f
  | fuel + 1, f => if f.ready.isEmpty then f else takeAll fuel f.take

/-- A bound for the turns until nothing is ready: every job has at most three
    and the call has one. -/
def turnBound (f : FanOut β) : Nat := 3 * f.size + 1

def settle (f : FanOut β) : FanOut β := f.takeAll f.turnBound

/-! ### Runs -/

/-- What can happen to a fan-out. -/
inductive Event (β : Type) where
  | take
  | finish (job : Nat) (outcome : Attempt β)
  | cancel

def step (f : FanOut β) : Event β → FanOut β
  | .take => f.take
  | .finish job outcome =>
    if job ∈ f.running then { f with running := f.running.erase job }.finish job outcome else f
  | .cancel => if f.conclusion.isSome then f else f.stop .cancelled

/-- A run: one event after another. -/
def run (f : FanOut β) (events : List (Event β)) : FanOut β := events.foldl step f

end FanOut

end KeyFigures
