/-
  KeyFigures/Service/Group.lean
  =============================
  **One formula over a group of entities.**

  Each entity is evaluated once, however often it is named, by a fan-out in the
  order of first occurrence.  An entity without a ledger does not end it: it
  contributes a result without a value.  Once all evaluations are through their
  results are summed.
-/
import KeyFigures.Service.Aggregate
import KeyFigures.Service.FanOut

namespace KeyFigures

/-- What a formula comes to for an entity, and the entities it is asked for, with
    repeats. -/
structure Group where
  kind : ResultKind
  evaluation : String → Attempt Result
  ids : List String

namespace Group

/-- The entities, each at its first occurrence. -/
def entities (g : Group) : List String := g.ids.eraseDups

/-- The entity in that place. -/
def entity (g : Group) (job : Nat) : String := g.entities.getD job ""

/-- What the evaluation for the entity in that place contributes. -/
def outcome (g : Group) (job : Nat) : Attempt Result :=
  Aggregate.contribution g.kind (g.evaluation (g.entity job))

/-- Starts the aggregation under a limit; `atOnce` says which evaluations end
    where they begin. -/
def start (g : Group) (limit : Value) (atOnce : Nat → Bool) : Attempt (FanOut Result) := do
  let entities ← Aggregate.entitiesOf (g.ids.map .text)
  let limit ← FanOut.limitOf limit
  .ok (FanOut.start entities.length limit fun job =>
    if atOnce job then some (g.outcome job) else none)

/-- What the aggregation is answered with, once its evaluations are through. -/
def answer (g : Group) (f : FanOut Result) : Option (Log.Recorded Result) :=
  match f.conclusion with
  | some (.values results) =>
    some (Aggregate.summedRecorded g.kind (g.entities.map .text) results)
  | some (.failed cause) => some (throw cause)
  | some .cancelled | none => none

end Group

end KeyFigures
