/-
  KeyFigures/Service/Slots.lean
  =============================
  **A bounded number at a time.**

  Whoever finds no slot free, or others waiting, joins the queue; a slot that is
  given back goes to the longest waiting.  One who was given a slot goes on a
  turn later, and nobody who comes in between overtakes.

  `grant_cases` says when a slot is granted; granting keeps the number of unused
  slots (`unused_grant`), and giving one back adds one (`unused_release`).
-/
namespace KeyFigures

/-- Slots.  Those who take them are known by their numbers. -/
structure Slots where
  free : Nat
  /-- Those who wait for a slot, the longest waiting first. -/
  queue : List Nat := []
  /-- Those who were given a slot and have not gone on yet. -/
  granted : List Nat := []
deriving DecidableEq, Repr, Inhabited

namespace Slots

def isBusy (s : Slots) : Bool := s.free == 0 || !s.queue.isEmpty || !s.granted.isEmpty

/-- Takes a slot or queues for one; the second part tells whether it is taken. -/
def acquire (s : Slots) (taker : Nat) : Slots × Bool :=
  if s.isBusy then ({ s with queue := s.queue ++ [taker] }, false)
  else ({ s with free := s.free - 1 }, true)

/-- Gives a free slot to the longest waiting, if there is one. -/
def grant (s : Slots) : Slots × Option Nat :=
  match s.free, s.queue with
  | free + 1, taker :: rest =>
    ({ free := free, queue := rest, granted := s.granted ++ [taker] }, some taker)
  | _, _ => (s, none)

/-- Gives a slot back; the second part is the one who gets it. -/
def release (s : Slots) : Slots × Option Nat := grant { s with free := s.free + 1 }

/-- Goes on with a slot that was given; the second part is the next one who
    gets a slot. -/
def proceed (s : Slots) (taker : Nat) : Slots × Option Nat :=
  grant { s with granted := s.granted.erase taker }

/-- How many slots are not taken by one who has gone on. -/
def unused (s : Slots) : Nat := s.free + s.granted.length

/-- A slot goes to the longest waiting, or nobody gets one. -/
theorem grant_cases (s : Slots) :
    (∃ taker rest, s.queue = taker :: rest ∧ 0 < s.free ∧
      s.grant = (⟨s.free - 1, rest, s.granted ++ [taker]⟩, some taker)) ∨
    ((s.queue = [] ∨ s.free = 0) ∧ s.grant = (s, none)) := by
  rcases s with ⟨free, queue, granted⟩
  unfold grant
  cases free with
  | zero => exact .inr ⟨.inr rfl, rfl⟩
  | succ free =>
    cases queue with
    | nil => exact .inr ⟨.inl rfl, rfl⟩
    | cons taker rest => exact .inl ⟨taker, rest, rfl, Nat.succ_pos free, rfl⟩

theorem unused_grant (s : Slots) : s.grant.1.unused = s.unused := by
  rcases s.grant_cases with ⟨taker, rest, -, hfree, heq⟩ | ⟨-, heq⟩
  · rw [heq]
    simp [unused]
    omega
  · rw [heq]

theorem unused_release (s : Slots) : s.release.1.unused = s.unused + 1 := by
  unfold release
  rw [unused_grant]
  simp [unused]
  omega

end Slots

end KeyFigures
