/-
  KeyFigures/Service/Gate.lean
  ============================
  **The newest request wins.**

  A gate hands out tickets, each higher than all before it, and knows the
  latest one of every channel.  A subscription shows the results of one
  channel: a result is published if its ticket is still the latest when it
  arrives, and counted as discarded otherwise.

  A board is a gate with the subscriptions that share it and the requests that
  are under way.
-/
import KeyFigures.Log.Journal

namespace KeyFigures

/-! ### Gates -/

/-- A gate: how many tickets it has issued, and the latest of each channel. -/
structure Gate where
  issued : Nat := 0
  channels : List (Value × Nat) := []
deriving DecidableEq, Repr, Inhabited

namespace Gate

def latest? (g : Gate) (channel : Value) : Option Nat :=
  (g.channels.find? (·.1.same channel)).map (·.2)

/-- Forgets a channel, so that none of its tickets is the latest. -/
def close (g : Gate) (channel : Value) : Gate :=
  { g with channels := g.channels.filter (!·.1.same channel) }

def nextTicket (g : Gate) : Nat := g.issued + 1

def issue (g : Gate) (channel : Value) : Gate :=
  ⟨g.nextTicket, (channel, g.nextTicket) :: (g.close channel).channels⟩

/-- Takes the next ticket for a channel that data names.  Data that can be no
    key names none, and uses up a ticket all the same. -/
def take (g : Gate) (channel : Value) : Attempt Nat × Gate :=
  if channel.isKey then (.ok g.nextTicket, g.issue channel)
  else (Attempt.mistyped, { g with issued := g.nextTicket })

/-- Whether a ticket is the latest of its channel. -/
def isCurrent (g : Gate) (channel : Value) (ticket : Nat) : Bool := g.latest? channel == some ticket

theorem latest?_issue_self (g : Gate) (channel : Value) :
    (g.issue channel).latest? channel = some g.nextTicket := by
  simp [issue, latest?]

theorem latest?_close_self (g : Gate) (channel : Value) :
    (g.close channel).latest? channel = none := by
  simp [close, latest?]

theorem latest?_close_of_not_same (g : Gate) {channel other : Value}
    (h : other.same channel = false) : (g.close channel).latest? other = g.latest? other := by
  have agree : (fun e : Value × Nat => decide ((!e.1.same channel) = true ∧ e.1.same other = true))
      = fun e => e.1.same other := by
    funext e
    cases he : e.1.same other with
    | false => simp
    | true => simp [Value.same_congr he, h]
  simp only [close, latest?, List.find?_filter, agree]

theorem latest?_issue_of_not_same (g : Gate) {channel other : Value}
    (h : other.same channel = false) : (g.issue channel).latest? other = g.latest? other := by
  have := latest?_close_of_not_same g h
  unfold latest? at this ⊢
  simp only [issue, List.find?_cons, Value.same_comm channel other, h]
  exact this

end Gate

/-! ### Subscriptions -/

structure Subscription (α : Type) where
  channel : Value
  latest : Option α := none
  published : Nat := 0
  discarded : Nat := 0
deriving Repr

namespace Subscription

variable {α : Type}

def publish (s : Subscription α) (v : α) : Subscription α :=
  { s with latest := some v, published := s.published + 1 }

def discard (s : Subscription α) : Subscription α := { s with discarded := s.discarded + 1 }

end Subscription

/-! ### Boards -/

/-- A request under way: who made it, for which subscription, and its
    ticket. -/
structure Submission where
  caller : String
  widget : String
  channel : Value
  ticket : Nat
deriving DecidableEq, Repr

/-- A gate, the subscriptions that share it and the requests under way. -/
structure Board (α : Type) where
  gate : Gate := {}
  widgets : List (String × Subscription α) := []
  pending : List Submission := []

namespace Board

variable {α : Type}

def widget? (b : Board α) (name : String) : Option (Subscription α) :=
  (b.widgets.find? (·.1 == name)).map (·.2)

def update (b : Board α) (name : String) (change : Subscription α → Subscription α) : Board α :=
  { b with widgets := b.widgets.map fun w => if w.1 == name then (w.1, change w.2) else w }

/-- Makes a request: it takes a new ticket of its subscription's channel. -/
def submit (b : Board α) (caller name : String) : Board α :=
  match b.widget? name with
  | none => b
  | some w =>
    let s : Submission := ⟨caller, name, w.channel, b.gate.nextTicket⟩
    { b with gate := b.gate.issue w.channel, pending := b.pending ++ [s] }

/-- The first request of a caller that is under way. -/
def submission? (b : Board α) (caller : String) : Option Submission :=
  b.pending.find? (·.caller == caller)

def drop (b : Board α) (s : Submission) : Board α := { b with pending := b.pending.erase s }

/-- Takes in the result of a request: it is published if its ticket is the
    latest. -/
def arrive (b : Board α) (s : Submission) (v : α) : Board α :=
  let change (w : Subscription α) : Subscription α :=
    if b.gate.isCurrent s.channel s.ticket then w.publish v else w.discard
  (b.drop s).update s.widget change

def close (b : Board α) (name : String) : Board α :=
  match b.widget? name with
  | none => b
  | some w => { b with gate := b.gate.close w.channel }

def noteDiscarded (s : Submission) : Log.Recorded Unit :=
  Log.event Log.debug "services.request_gate" "stale_result_discarded"
    [("channel", s.channel), ("ticket", .int s.ticket)]

/-- Takes in the result of a request and records if it came too late; the
    second part is the result if it was published. -/
def arriveRecorded (b : Board α) (s : Submission) (v : α) : Log.Recorded (Board α × Option α) := do
  if b.gate.isCurrent s.channel s.ticket then
    return (b.arrive s v, some v)
  else
    noteDiscarded s
    return (b.arrive s v, none)

end Board

end KeyFigures
