/-
  KeyFigures/Proofs/Cache/Traced.lean
  ===================================
  **A shared cache that remembers where its results come from.**

  A shared cache does not say which flight a result came from, or which call is
  told what.  A traced cache runs one and writes that down beside it: calls are
  numbered, flights are listed as they start and as they land, who waits waits
  under the number of a call, and every key names the flight that stored its
  result last.

  What is written down has no influence: a traced cache goes through the states
  of the shared cache (`run_shared`).
-/
import KeyFigures.Cache.Shared
import KeyFigures.Proofs.Cache.Operations

namespace KeyFigures

namespace SharedCache

variable {ι : Type}

/-- How a request is met now. -/
def lookup (s : SharedCache ι) (key : CacheKey) : Attempt Cache.Lookup :=
  match s.blocked? key with
  | some fault => .error (.time fault)
  | none => .ok (s.cache.request s.time key).2

/-- The flights under way, without those who wait. -/
def routes (s : SharedCache ι) : List (Nat × CacheKey) := s.flights.map fun f => (f.number, f.key)

theorem mem_of_flight? {s : SharedCache ι} {n : Nat} {f : Flight ι} (h : s.flight? n = some f) :
    f ∈ s.flights ∧ f.number = n := by
  have hnumber := List.find?_some h
  exact ⟨List.mem_of_find?_eq_some h, by simpa using hnumber⟩

theorem eq_ok_of_arrival {s : SharedCache ι} {f : Flight ι} {outcome : Attempt Result}
    {r : Result} (h : s.arrival f outcome = .ok r) : outcome = .ok r := by
  unfold arrival at h
  split at h
  · split at h
    · cases h
    · exact h
  · exact h

/-- Nothing keeps a flight that is not registered from bringing what it has. -/
theorem arrival_of_not_registered {s : SharedCache ι} {f : Flight ι}
    (h : s.cache.flight? f.key ≠ some f.number) (outcome : Attempt Result) :
    s.arrival f outcome = outcome := by
  have hnot : s.cache.isRegistered f.key f.number = false := by
    simpa [Cache.isRegistered] using h
  unfold arrival
  split
  · rw [hnot]
    rfl
  · rfl

end SharedCache

/-- A request to drop keys. -/
inductive Drop where
  | evict (key : CacheKey)
  | invalidate (entity year : Value)
  | clear

namespace Drop

/-- The keys that are dropped. -/
def selects : Drop → CacheKey → Bool
  | .evict key, k => k == key
  | .invalidate entity year, k => k.isOf entity year
  | .clear, _ => true

def event {ι : Type} : Drop → SharedCache.Event ι
  | .evict key => .evict key
  | .invalidate entity year => .invalidate entity year
  | .clear => .clear

end Drop

/-- A call that waits for a flight. -/
structure Wait (ι : Type) where
  call : Nat
  caller : ι
  key : CacheKey
  flight : Nat
deriving DecidableEq

/-- What a call is told, and which flight found that out. -/
structure Delivery (ι : Type) where
  call : Nat
  caller : ι
  key : CacheKey
  flight : Option Nat
  outcome : Attempt Result

/-- A delivery without its history. -/
def Delivery.answer {ι : Type} (d : Delivery ι) : SharedCache.Answer ι := ⟨d.caller, d.outcome⟩

/-- A shared cache with its history. -/
structure TracedCache (ι : Type) where
  shared : SharedCache ι
  /-- How many calls there were. -/
  calls : Nat := 0
  /-- The flights that ever started. -/
  starts : List (Nat × CacheKey) := []
  /-- The flights that landed, with what they brought. -/
  landings : List (Nat × Attempt Result) := []
  waits : List (Wait ι) := []
  /-- The flight that stored the result of a key last. -/
  author : CacheKey → Option Nat := fun _ => none

namespace TracedCache

variable {ι : Type} [DecidableEq ι]

open SharedCache (Event)

/-- The authors after a landing. -/
def authorAfter (w : TracedCache ι) (f : Flight ι) (outcome : Attempt Result) :
    CacheKey → Option Nat :=
  match (w.shared.land f outcome).2 with
  | .stored _ => Function.update w.author f.key (some f.number)
  | .stale | .failed => w.author

/-- Whoever waits for a flight is told its outcome. -/
def deliveries (w : TracedCache ι) (n : Nat) (outcome : Attempt Result) : List (Delivery ι) :=
  (w.waits.filter (·.flight = n)).map fun x => ⟨x.call, x.caller, x.key, some n, outcome⟩

/-- The step of the shared cache, with its history. -/
def step (w : TracedCache ι) (e : Event ι) : TracedCache ι × List (Delivery ι) :=
  let w' := { w with shared := (w.shared.step e).1 }
  match e with
  | .request caller key =>
    match w.shared.lookup key with
    | .error failure =>
      ({ w' with calls := w.calls + 1 }, [⟨w.calls, caller, key, none, .error failure⟩])
    | .ok (.hit r) =>
      ({ w' with calls := w.calls + 1 }, [⟨w.calls, caller, key, w.author key, .ok r⟩])
    | .ok (.joined n) =>
      ({ w' with calls := w.calls + 1, waits := w.waits ++ [⟨w.calls, caller, key, n⟩] }, [])
    | .ok (.started n) =>
      ({ w' with
          calls := w.calls + 1
          starts := w.starts ++ [(n, key)]
          waits := w.waits ++ [⟨w.calls, caller, key, n⟩] }, [])
  | .land n outcome =>
    match w.shared.flight? n with
    | some f =>
      ({ w' with
          landings := w.landings ++ [(n, outcome)]
          waits := w.waits.filter (·.flight ≠ n)
          author := w.authorAfter f (w.shared.arrival f outcome) },
        w.deliveries n (w.shared.arrival f outcome))
    | none => (w', [])
  | .leave caller => ({ w' with waits := w.waits.filter (·.caller ≠ caller) }, [])
  | .evict _ | .invalidate _ _ | .clear | .clock _ => (w', [])

/-- A run: one event after another. -/
def run (w : TracedCache ι) : List (Event ι) → TracedCache ι × List (Delivery ι)
  | [] => (w, [])
  | e :: rest =>
    let (w, told) := w.step e
    let (w, more) := w.run rest
    (w, told ++ more)

/-- A traced cache before its first event. -/
def start (limits : CacheLimits) (now : Except TimeFault Moment) : TracedCache ι :=
  { shared := .start limits now }

/-- The traced cache that a run leads to. -/
def reached (limits : CacheLimits) (now : Except TimeFault Moment) (es : List (Event ι)) :
    TracedCache ι :=
  ((start limits now).run es).1

theorem run_cons (w : TracedCache ι) (e : Event ι) (rest : List (Event ι)) :
    w.run (e :: rest) =
      (((w.step e).1.run rest).1, (w.step e).2 ++ ((w.step e).1.run rest).2) := rfl

theorem run_single (w : TracedCache ι) (e : Event ι) : w.run [e] = w.step e := by
  rw [run_cons]
  exact Prod.ext rfl (List.append_nil _)

theorem run_append (w : TracedCache ι) (before after : List (Event ι)) :
    w.run (before ++ after) =
      (((w.run before).1.run after).1, (w.run before).2 ++ ((w.run before).1.run after).2) := by
  induction before generalizing w with
  | nil => simp [run]
  | cons e rest ih => simp [run, ih]

theorem reached_append (limits : CacheLimits) (now : Except TimeFault Moment)
    (before after : List (Event ι)) :
    reached limits now (before ++ after) = ((reached limits now before).run after).1 := by
  simp [reached, run_append]

/-- Every delivery of a run is one of its steps. -/
theorem mem_run {w : TracedCache ι} {es : List (Event ι)} {d : Delivery ι}
    (h : d ∈ (w.run es).2) :
    ∃ before e after, es = before ++ e :: after ∧ d ∈ ((w.run before).1.step e).2 := by
  induction es generalizing w with
  | nil => cases h
  | cons e rest ih =>
    rw [run_cons] at h
    rcases List.mem_append.mp h with h | h
    · exact ⟨[], e, rest, rfl, h⟩
    · obtain ⟨before, e', after, rfl, hmem⟩ := ih h
      exact ⟨e :: before, e', after, rfl, by simpa [run_cons] using hmem⟩

/-- An invariant of single steps is one of runs. -/
theorem run_induction {P : TracedCache ι → Prop} (hstep : ∀ w e, P w → P (w.step e).1)
    {w : TracedCache ι} (h : P w) (es : List (Event ι)) : P (w.run es).1 := by
  induction es generalizing w with
  | nil => exact h
  | cons e rest ih =>
    rw [run_cons]
    exact ih (hstep w e h)

/-! ### What one step can do -/

/-- The four ways in which a request is met, with all that it changes. -/
theorem step_request (w : TracedCache ι) (caller : ι) (key : CacheKey) :
    (∃ fault, w.shared.blocked? key = some fault ∧
      w.step (.request caller key) =
        ({ w with calls := w.calls + 1 },
          [⟨w.calls, caller, key, none, .error (.time fault)⟩])) ∨
    (w.shared.blocked? key = none ∧ ∃ e ∈ w.shared.cache.entries, e.key = key ∧
      w.step (.request caller key) =
        ({ w with
            shared.cache := { w.shared.cache.refresh e with hits := w.shared.cache.hits + 1 }
            calls := w.calls + 1 },
          [⟨w.calls, caller, key, w.author key, .ok e.result⟩])) ∨
    (w.shared.blocked? key = none ∧ ∃ n, w.shared.cache.flight? key = some n ∧
      w.step (.request caller key) =
        ({ w with
            shared.cache :=
              { w.shared.cache.expire w.shared.time key with
                coalesced := w.shared.cache.coalesced + 1 }
            shared.flights := w.shared.flights.map fun f =>
              if f.number = n then { f with waiting := f.waiting ++ [caller] } else f
            calls := w.calls + 1
            waits := w.waits ++ [⟨w.calls, caller, key, n⟩] }, [])) ∨
    (w.shared.blocked? key = none ∧ w.shared.get? key = .ok none ∧
      w.shared.cache.flight? key = none ∧
      w.step (.request caller key) =
        ({ w with
            shared.cache :=
              { w.shared.cache.expire w.shared.time key with
                misses := w.shared.cache.misses + 1
                flights := w.shared.cache.flights ++ [(key, w.shared.cache.misses)] }
            shared.flights := w.shared.flights ++ [⟨w.shared.cache.misses, key, [caller]⟩]
            calls := w.calls + 1
            starts := w.starts ++ [(w.shared.cache.misses, key)]
            waits := w.waits ++ [⟨w.calls, caller, key, w.shared.cache.misses⟩] }, [])) := by
  cases hblocked : w.shared.blocked? key with
  | some fault =>
    refine .inl ⟨fault, rfl, ?_⟩
    simp [step, SharedCache.step, SharedCache.lookup, hblocked]
  | none =>
    refine .inr ?_
    rcases w.shared.cache.request_cases w.shared.time key with
      ⟨e, he, hkey, heq⟩ | ⟨-, n, hn, heq⟩ | ⟨hget, hn, heq⟩
    · refine .inl ⟨rfl, e, he, hkey, ?_⟩
      simp [step, SharedCache.step, SharedCache.lookup, SharedCache.request, hblocked, heq]
    · refine .inr (.inl ⟨rfl, n, hn, ?_⟩)
      simp [step, SharedCache.step, SharedCache.lookup, SharedCache.request, hblocked, heq]
    · refine .inr (.inr ⟨rfl, ?_, hn, ?_⟩)
      · simp [SharedCache.get?, hblocked, hget]
      · simp [step, SharedCache.step, SharedCache.lookup, SharedCache.request, hblocked, heq]

/-- The three ways in which a flight lands, with all that it changes: its result
    is kept, it is registered but brings no result, or it is not registered. -/
theorem step_land {w : TracedCache ι} {n : Nat} {f : Flight ι} (h : w.shared.flight? n = some f)
    (outcome : Attempt Result) :
    (∃ r, outcome = .ok r ∧ w.shared.cache.flight? f.key = some f.number ∧
      w.step (.land n outcome) =
        ({ w with
            shared.cache :=
              (w.shared.cache.refresh ⟨f.key, r, w.shared.time⟩).trim.detach f.key
            shared.flights := w.shared.flights.filter (·.number != f.number)
            landings := w.landings ++ [(n, outcome)]
            waits := w.waits.filter (·.flight ≠ n)
            author := Function.update w.author f.key (some f.number) },
          w.deliveries n outcome)) ∨
    (∃ failure, w.shared.cache.flight? f.key = some f.number ∧
      w.step (.land n outcome) =
        ({ w with
            shared.cache := w.shared.cache.detach f.key
            shared.flights := w.shared.flights.filter (·.number != f.number)
            landings := w.landings ++ [(n, outcome)]
            waits := w.waits.filter (·.flight ≠ n) },
          w.deliveries n (.error failure))) ∨
    (w.shared.cache.flight? f.key ≠ some f.number ∧
      w.step (.land n outcome) =
        ({ w with
            shared.flights := w.shared.flights.filter (·.number != f.number)
            landings := w.landings ++ [(n, outcome)]
            waits := w.waits.filter (·.flight ≠ n) },
          w.deliveries n outcome)) := by
  have hstep : w.step (.land n outcome) =
      ({ w with
          shared := (w.shared.land f (w.shared.arrival f outcome)).1
          landings := w.landings ++ [(n, outcome)]
          waits := w.waits.filter (·.flight ≠ n)
          author := w.authorAfter f (w.shared.arrival f outcome) },
        w.deliveries n (w.shared.arrival f outcome)) := by
    simp [step, SharedCache.step, h]
  rw [hstep]
  rcases w.shared.cache.land_cases w.shared.time f.key f.number (w.shared.arrival f outcome) with
    ⟨r, evicted, hok, hreg, heq⟩ | ⟨failure, herror, hreg, heq⟩ | ⟨hreg, landing, hlanding, heq⟩
  · obtain rfl := SharedCache.eq_ok_of_arrival hok
    rw [hok] at heq ⊢
    refine .inl ⟨r, rfl, hreg, ?_⟩
    simp [authorAfter, SharedCache.land, heq]
  · rw [herror] at heq ⊢
    refine .inr (.inl ⟨failure, hreg, ?_⟩)
    simp [authorAfter, SharedCache.land, heq]
  · refine .inr (.inr ⟨hreg, ?_⟩)
    rw [SharedCache.arrival_of_not_registered hreg] at heq ⊢
    cases landing with
    | stored evicted => exact absurd rfl (hlanding evicted)
    | stale => simp [authorAfter, SharedCache.land, heq]
    | failed => simp [authorAfter, SharedCache.land, heq]

theorem step_land_none {w : TracedCache ι} {n : Nat} (h : w.shared.flight? n = none)
    (outcome : Attempt Result) : w.step (.land n outcome) = (w, []) := by
  simp [step, SharedCache.step, h]

theorem step_drop (w : TracedCache ι) (d : Drop) :
    w.step d.event = ({ w with shared.cache := w.shared.cache.dropWhere d.selects }, []) := by
  cases d with
  | evict key =>
    have hevict := w.shared.cache.evict_eq key
    simp [Drop.event, step, SharedCache.step, hevict]
    rfl
  | invalidate entity year => rfl
  | clear =>
    have hclear := w.shared.cache.clear_eq
    simp [Drop.event, step, SharedCache.step, hclear]
    rfl

/-! ### What calls are told -/

/-- A request is answered at once if it fails or finds an entry. -/
theorem request_delivery {w : TracedCache ι} {caller : ι} {key : CacheKey} {d : Delivery ι}
    (h : d ∈ (w.step (.request caller key)).2) :
    (∃ failure, d = ⟨w.calls, caller, key, none, .error failure⟩) ∨
    ∃ e ∈ w.shared.cache.entries, e.key = key ∧
      d = ⟨w.calls, caller, key, w.author key, .ok e.result⟩ := by
  rcases w.step_request caller key with
    ⟨fault, -, heq⟩ | ⟨-, e, he, hkey, heq⟩ | ⟨-, n, -, heq⟩ | ⟨-, -, -, heq⟩
  · rw [heq] at h
    exact .inl ⟨.time fault, List.mem_singleton.mp h⟩
  · rw [heq] at h
    exact .inr ⟨e, he, hkey, List.mem_singleton.mp h⟩
  · rw [heq] at h
    cases h
  · rw [heq] at h
    cases h

/-- A landing answers calls that wait for the flight; a result they are told is
    what the flight brought. -/
theorem land_delivery {w : TracedCache ι} {n : Nat} {outcome : Attempt Result} {d : Delivery ι}
    (h : d ∈ (w.step (.land n outcome)).2) :
    (∃ x ∈ w.waits, ∃ o, x.flight = n ∧ d = ⟨x.call, x.caller, x.key, some n, o⟩) ∧
    (∀ r, d.outcome = .ok r → outcome = .ok r) ∧
    (n, outcome) ∈ (w.step (.land n outcome)).1.landings := by
  have hwait : ∀ o, d ∈ w.deliveries n o → d.outcome = o ∧
      ∃ x ∈ w.waits, ∃ o, x.flight = n ∧ d = ⟨x.call, x.caller, x.key, some n, o⟩ := by
    intro o hd
    obtain ⟨x, hx, rfl⟩ := List.mem_map.mp hd
    obtain ⟨hmem, hn⟩ := List.mem_filter.mp hx
    exact ⟨rfl, x, hmem, o, by simpa using hn, rfl⟩
  cases hf : w.shared.flight? n with
  | none =>
    rw [step_land_none hf] at h
    cases h
  | some f =>
    rcases step_land hf outcome with ⟨r, -, -, heq⟩ | ⟨failure, -, heq⟩ | ⟨-, heq⟩
    all_goals
      rw [heq] at h ⊢
      obtain ⟨ho, hx⟩ := hwait _ h
      refine ⟨hx, ?_, List.mem_append_right _ (List.mem_singleton_self _)⟩
      intro r hr
      rw [ho] at hr
    · exact hr
    · cases hr
    · exact hr

/-! ### The history has no influence -/

theorem step_shared (w : TracedCache ι) (e : Event ι) :
    (w.step e).1.shared = (w.shared.step e).1 := by
  unfold step
  cases e with
  | request caller key =>
    dsimp only
    split <;> rfl
  | land n outcome =>
    dsimp only
    split <;> rfl
  | leave caller => rfl
  | evict key => rfl
  | invalidate entity year => rfl
  | clear => rfl
  | clock now => rfl

theorem run_shared (w : TracedCache ι) (es : List (Event ι)) :
    (w.run es).1.shared = (w.shared.run es).1 := by
  induction es generalizing w with
  | nil => rfl
  | cons e rest ih =>
    rw [run_cons, ih, step_shared]
    rfl

theorem reached_shared (limits : CacheLimits) (now : Except TimeFault Moment)
    (es : List (Event ι)) :
    (reached limits now es).shared = ((SharedCache.start limits now).run es).1 :=
  run_shared _ es

/-! ### What is written down stays -/

/-- A flight starts only for a call that finds neither a live entry nor a
    registered flight. -/
theorem starts_cases (w : TracedCache ι) (e : Event ι) :
    (w.step e).1.starts = w.starts ∨
    ∃ caller key, e = .request caller key ∧ w.shared.get? key = .ok none ∧
      w.shared.cache.flight? key = none ∧
      (w.step e).1.starts = w.starts ++ [(w.shared.cache.misses, key)] := by
  cases e with
  | request caller key =>
    rcases w.step_request caller key with
      ⟨fault, -, heq⟩ | ⟨-, e, -, -, heq⟩ | ⟨-, n, -, heq⟩ | ⟨-, hget, hflight, heq⟩
    · exact .inl (by rw [heq])
    · exact .inl (by rw [heq])
    · exact .inl (by rw [heq])
    · exact .inr ⟨caller, key, rfl, hget, hflight, by rw [heq]⟩
  | land n outcome =>
    refine .inl ?_
    cases hf : w.shared.flight? n with
    | none => rw [step_land_none hf]
    | some f =>
      rcases step_land hf outcome with ⟨r, -, -, heq⟩ | ⟨failure, -, heq⟩ | ⟨-, heq⟩ <;> rw [heq]
  | leave caller => exact .inl rfl
  | evict key => exact .inl rfl
  | invalidate entity year => exact .inl rfl
  | clear => exact .inl rfl
  | clock now => exact .inl rfl

theorem starts_step (w : TracedCache ι) (e : Event ι) : w.starts <+: (w.step e).1.starts := by
  rcases w.starts_cases e with heq | ⟨caller, key, -, -, -, heq⟩
  · rw [heq]
  · rw [heq]
    exact List.prefix_append _ _

theorem landings_step (w : TracedCache ι) (e : Event ι) :
    w.landings <+: (w.step e).1.landings := by
  unfold step
  cases e with
  | request caller key =>
    dsimp only
    split <;> exact List.prefix_refl _
  | land n outcome =>
    dsimp only
    split
    · exact List.prefix_append _ _
    · exact List.prefix_refl _
  | leave caller => exact List.prefix_refl _
  | evict key => exact List.prefix_refl _
  | invalidate entity year => exact List.prefix_refl _
  | clear => exact List.prefix_refl _
  | clock now => exact List.prefix_refl _

theorem starts_run (w : TracedCache ι) (es : List (Event ι)) : w.starts <+: (w.run es).1.starts :=
  run_induction (P := fun w' => w.starts <+: w'.starts)
    (fun w' e h => h.trans (w'.starts_step e)) (List.prefix_refl _) es

theorem landings_run (w : TracedCache ι) (es : List (Event ι)) :
    w.landings <+: (w.run es).1.landings :=
  run_induction (P := fun w' => w.landings <+: w'.landings)
    (fun w' e h => h.trans (w'.landings_step e)) (List.prefix_refl _) es

end TracedCache

end KeyFigures
