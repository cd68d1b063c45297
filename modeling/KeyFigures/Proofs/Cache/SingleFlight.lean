/-
  KeyFigures/Proofs/Cache/SingleFlight.lean
  =========================================
  **At most one computation per key is asked for.**

  `single_flight` holds after any run: no key is in both tables, a flight starts
  only for a call that finds neither a live entry nor a registered flight, every
  call is counted once, and every result that a call is told was brought by a
  flight of the key that it asked for.

  One kind of call is not counted.  Where results get old, a call that finds an
  entry asks for its age; if the clock has left the calendar, the call fails
  before it is counted and leaves everything as it was
  (`request_uncounted_off_calendar`).
-/
import KeyFigures.Proofs.Cache.Reachable

namespace KeyFigures

/-- One request more was met, in one of the three ways. -/
def Cache.CountsOne (c c' : Cache) : Prop :=
  c'.tally = (c.hits + 1, c.misses, c.coalesced) ∨
  c'.tally = (c.hits, c.misses + 1, c.coalesced) ∨
  c'.tally = (c.hits, c.misses, c.coalesced + 1)

instance (c c' : Cache) : Decidable (c.CountsOne c') := inferInstanceAs (Decidable (_ ∨ _ ∨ _))

namespace TracedCache

variable {ι : Type} [DecidableEq ι]

open SharedCache (Event)

/-! ### Counts -/

theorem countsOne_request {w : TracedCache ι} {key : CacheKey} (h : w.shared.blocked? key = none)
    (caller : ι) :
    w.shared.cache.CountsOne (w.step (.request caller key)).1.shared.cache := by
  have htally := w.shared.cache.expire_tally w.shared.time key
  simp only [Cache.tally, Prod.mk.injEq] at htally
  obtain ⟨hhits, hmisses, hcoalesced⟩ := htally
  rcases w.step_request caller key with
    ⟨fault, hfault, -⟩ | ⟨-, e, -, -, heq⟩ | ⟨-, n, -, heq⟩ | ⟨-, -, -, heq⟩
  · rw [h] at hfault
    cases hfault
  · rw [heq]
    exact .inl rfl
  · rw [heq]
    refine .inr (.inr ?_)
    simp only [Cache.tally]
    rw [hhits, hmisses]
  · rw [heq]
    refine .inr (.inl ?_)
    simp only [Cache.tally]
    rw [hhits, hcoalesced]

/-- Only requests are counted. -/
theorem tally_step (w : TracedCache ι) {e : Event ι} (h : ∀ caller key, e ≠ .request caller key) :
    (w.step e).1.shared.cache.tally = w.shared.cache.tally := by
  cases e with
  | request caller key => exact absurd rfl (h caller key)
  | land n outcome =>
    cases hf : w.shared.flight? n with
    | none => rw [step_land_none hf]
    | some f =>
      rcases step_land hf outcome with ⟨r, -, -, heq⟩ | ⟨failure, -, heq⟩ | ⟨-, heq⟩ <;>
        rw [heq] <;> rfl
  | leave caller => rfl
  | evict key => rfl
  | invalidate entity year => rfl
  | clear => rfl
  | clock now => rfl

/-! ### Single flight -/

/-- **Single flight**, after any run: no key is in both tables; a flight starts
    only for a call that finds neither a live entry nor a registered flight, and
    there are as many of them as misses; a call is counted once unless it fails
    for want of the time, which changes nothing; and every result that a call is
    told was brought by a flight of its key. -/
theorem single_flight (limits : CacheLimits) (now : Except TimeFault Moment)
    (es : List (Event ι)) :
    let w : TracedCache ι := reached limits now es
    let told := ((start limits now : TracedCache ι).run es).2
    (w.shared = ((SharedCache.start limits now).run es).1 ∧
      told.map Delivery.answer = ((SharedCache.start limits now).run es).2) ∧
    (∀ key, w.shared.cache.kept? key = none ∨ w.shared.cache.flight? key = none) ∧
    (∀ e, (w.step e).1.starts = w.starts ∨
      ∃ caller key, e = .request caller key ∧ w.shared.get? key = .ok none ∧
        w.shared.cache.flight? key = none ∧
        (w.step e).1.starts = w.starts ++ [(w.shared.cache.misses, key)]) ∧
    (∀ f ∈ w.shared.flights, (f.number, f.key) ∈ w.starts) ∧
    (w.starts.map Prod.fst).Nodup ∧ w.starts.length = w.shared.cache.misses ∧
    (∀ caller key, w.shared.blocked? key = none →
      w.shared.cache.CountsOne (w.shared.step (.request caller key)).1.cache) ∧
    (∀ caller key fault, w.shared.blocked? key = some fault →
      w.shared.step (.request caller key) = (w.shared, [⟨caller, .error (.time fault)⟩])) ∧
    (∀ e, (∀ caller key, e ≠ .request caller key) →
      (w.shared.step e).1.cache.tally = w.shared.cache.tally) ∧
    (∀ d ∈ told, w.Sourced d) ∧ (w.landings.map Prod.fst).Nodup := by
  intro w told
  have h : w.Inv := reached_inv limits now es
  refine ⟨⟨reached_shared limits now es, (start_inv limits now).run_answers es⟩,
    h.consistent.kept?_or_flight?, w.starts_cases,
    fun f hf => h.started _ (SharedCache.mem_routes hf), h.starts_nodup, h.starts_length,
    ?_, ?_, ?_, fun d hd => (start_inv limits now).sourced_run hd, h.landed_nodup⟩
  · intro caller key hblocked
    rw [← step_shared]
    exact countsOne_request hblocked caller
  · intro caller key fault hblocked
    simp [SharedCache.step, hblocked]
  · intro e he
    rw [← step_shared]
    exact w.tally_step he

/-- A result gets old after a microsecond and one is kept; then the clock leaves
    the calendar, and the next call is not counted. -/
theorem request_uncounted_off_calendar :
    let key : CacheKey := ⟨.text "acme", .int 2024, .null, .text "f1"⟩
    let s := ((SharedCache.start (.ofBounds none (some 1)) (.ok default)).run
      [.request 1 key, .land 0 (.ok default), .clock (.error .beyondCalendar)]).1
    ¬ s.cache.CountsOne (s.step (.request 2 key)).1.cache := by
  decide

end TracedCache

end KeyFigures
