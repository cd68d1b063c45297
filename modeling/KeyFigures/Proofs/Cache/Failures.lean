/-
  KeyFigures/Proofs/Cache/Failures.lean
  =====================================
  **A flight that fails leaves no trace.**

  When a flight fails, its callers are told so and its registration ends.
  `Traceless` says all that there is to say of it: who is told, by the history of
  the run, that nobody else ever is, that the cache is as it was but for the one
  registration, and that the next call for the key finds a newer flight or an
  entry, or else starts a flight of its own.

  What an event adds to the two tables of a cache is little: a registration comes
  from a request for its key (`mem_flights_step`), and an entry from a landing of
  the flight registered for its key (`mem_entries_step`).
-/
import KeyFigures.Proofs.Cache.UnderWay
import KeyFigures.Proofs.Cache.Landing

namespace KeyFigures.TracedCache

open SharedCache (Event)

variable {ι : Type} [DecidableEq ι] {w : TracedCache ι}

/-! ### What an event adds -/

theorem mem_flights_step {e : Event ι} {p : CacheKey × Nat}
    (hp : p ∈ (w.step e).1.shared.cache.flights) :
    p ∈ w.shared.cache.flights ∨
      p.2 = w.shared.cache.misses ∧ w.shared.cache.flight? p.1 = none ∧
        ∃ caller, e = .request caller p.1 := by
  have hdrop : ∀ d : Drop, p ∈ (w.step d.event).1.shared.cache.flights →
      p ∈ w.shared.cache.flights := by
    intro d hp
    rw [step_drop] at hp
    exact List.mem_of_mem_filter hp
  cases e with
  | request caller key =>
    have hexpire := w.shared.cache.expire_flights w.shared.time key
    rcases w.step_request caller key with
      ⟨fault, -, heq⟩ | ⟨-, e, -, -, heq⟩ | ⟨-, n, -, heq⟩ | ⟨-, -, hflight, heq⟩ <;> rw [heq] at hp
    · exact .inl hp
    · exact .inl hp
    · exact .inl (hexpire ▸ hp)
    · rcases List.mem_append.mp hp with hp | hp
      · exact .inl hp
      · obtain rfl := List.mem_singleton.mp hp
        exact .inr ⟨rfl, hflight, caller, rfl⟩
  | land n x =>
    refine .inl ?_
    cases hf : w.shared.flight? n with
    | none => rwa [step_land_none hf] at hp
    | some f =>
      rcases step_land hf x with ⟨r, -, -, heq⟩ | ⟨failure, -, heq⟩ | ⟨-, heq⟩ <;> rw [heq] at hp
      · exact List.mem_of_mem_filter hp
      · exact List.mem_of_mem_filter hp
      · exact hp
  | leave caller => exact .inl hp
  | evict key => exact .inl (hdrop (.evict key) hp)
  | invalidate entity year => exact .inl (hdrop (.invalidate entity year) hp)
  | clear => exact .inl (hdrop .clear hp)
  | clock now => exact .inl hp

theorem mem_entries_step {e : Event ι} {y : CacheEntry}
    (hy : y ∈ (w.step e).1.shared.cache.entries) :
    y ∈ w.shared.cache.entries ∨ ∃ n, w.shared.cache.flight? y.key = some n := by
  by_cases hland : ∃ n x, e = .land n x
  · obtain ⟨n, x, rfl⟩ := hland
    cases hf : w.shared.flight? n with
    | none => exact .inl (by rwa [step_land_none hf] at hy)
    | some f =>
      rcases step_land hf x with ⟨r, -, hreg, heq⟩ | ⟨failure, -, heq⟩ | ⟨-, heq⟩ <;> rw [heq] at hy
      · rcases Cache.mem_refresh.mp (Cache.mem_of_mem_trim hy) with ⟨hold, -⟩ | rfl
        · exact .inl hold
        · exact .inr ⟨f.number, hreg⟩
      · exact .inl hy
      · exact .inl hy
  · exact .inl ((recalls_step fun n x heq => hland ⟨n, x, heq⟩).entries hy)

/-! ### Keys of which nothing is known -/

/-- A key with neither an entry nor a registered flight. -/
def Unknown (w : TracedCache ι) (key : CacheKey) : Prop :=
  w.shared.cache.kept? key = none ∧ w.shared.cache.flight? key = none

variable {key : CacheKey}

theorem Unknown.step (h : w.Unknown key) {e : Event ι} (he : ∀ caller, e ≠ .request caller key) :
    (w.step e).1.Unknown key := by
  obtain ⟨hkept, hflight⟩ := h
  refine ⟨Cache.kept?_eq_none_iff.mpr fun y hy hkey => ?_,
    Cache.flight?_eq_none_iff.mpr fun p hp hkey => ?_⟩
  · rcases mem_entries_step hy with hold | ⟨n, hreg⟩
    · exact Cache.kept?_eq_none_iff.mp hkept y hold hkey
    · rw [hkey, hflight] at hreg
      cases hreg
  · rcases mem_flights_step hp with hold | ⟨-, -, caller, heq⟩
    · exact Cache.flight?_eq_none_iff.mp hflight p hold hkey
    · exact he caller (hkey ▸ heq)

/-- Only a request makes something known of a key. -/
theorem Unknown.run (h : w.Unknown key) {es : List (Event ι)}
    (hes : ∀ caller, .request caller key ∉ es) : (w.run es).1.Unknown key := by
  induction es generalizing w with
  | nil => exact h
  | cons e es ih =>
    rw [run_cons]
    refine ih (h.step ?_) fun caller hmem => hes caller (List.mem_cons_of_mem e hmem)
    rintro caller rfl
    exact hes caller List.mem_cons_self

/-- The next request for the key starts a flight. -/
theorem Unknown.request (h : w.Unknown key) (caller : ι) :
    w.shared.lookup key = .ok (.started w.shared.cache.misses) ∧
      (w.step (.request caller key)).1.starts = w.starts ++ [(w.shared.cache.misses, key)] := by
  obtain ⟨hkept, hflight⟩ := h
  have hget : w.shared.get? key = .ok none := by
    unfold SharedCache.get? SharedCache.blocked? Cache.get?
    cases w.shared.now <;> simp [hkept]
  obtain ⟨c, hrequest, -⟩ := SharedCache.request_started hget hflight
  have hlookup : w.shared.lookup key = .ok (.started w.shared.cache.misses) := by
    simp [SharedCache.lookup, (SharedCache.get?_eq_ok hget).1, hrequest]
  exact ⟨hlookup, by simp [TracedCache.step, hlookup]⟩

/-! ### Newer flights -/

/-- The flight registered for a key is the newest of its flights under way. -/
theorem reached_newest (limits : CacheLimits) (now : Except TimeFault Moment)
    (es : List (Event ι)) :
    ∀ p ∈ (reached limits now es : TracedCache ι).shared.cache.flights,
      ∀ q ∈ (reached limits now es : TracedCache ι).shared.routes, q.2 = p.1 → q.1 ≤ p.2 := by
  induction es using List.reverseRecOn with
  | nil => exact List.forall_mem_nil _
  | append_singleton es e ih =>
    have hw : Inv (reached limits now es) := reached_inv limits now es
    rw [reached_append, run_single]
    rintro ⟨key, m⟩ hp ⟨n, k⟩ hq rfl
    rcases hw.routes_step hq with ⟨hold, -⟩ | ⟨rfl, hreg⟩
    · rcases mem_flights_step hp with hp | ⟨rfl, -⟩
      · exact ih _ hp _ hold rfl
      · exact Nat.le_of_lt (hw.lt_misses hold)
    · -- the flight starts now, and it is the one that is registered
      rw [(hw.step e).consistent.flight?_eq_some hp] at hreg
      exact (Option.some.inj hreg).ge

/-- Once all that is registered for a key is newer than some flight, it stays
    so. -/
theorem Inv.newer_run (h : w.Inv) {n : Nat} (hn : n < w.shared.cache.misses)
    (hnewer : ∀ m, (key, m) ∈ w.shared.cache.flights → n < m) (es : List (Event ι)) :
    ∀ m, (key, m) ∈ (w.run es).1.shared.cache.flights → n < m := by
  induction es generalizing w with
  | nil => exact hnewer
  | cons e es ih =>
    rw [run_cons]
    refine ih (h.step e) (Nat.lt_of_lt_of_le hn (h.misses_step e)) fun m hm => ?_
    rcases mem_flights_step hm with hold | ⟨rfl, -⟩
    · exact hnewer m hold
    · exact hn

/-! ### The failure -/

variable {f : Flight ι}

/-- A flight comes to its end with a failure. -/
def failing (f : Flight ι) (failure : Failure) : Event ι := .land f.number (.error failure)

omit [DecidableEq ι] in
/-- A failure takes the registration of its flight away and no other. -/
theorem Inv.unregister (h : w.Inv) (hf : f ∈ w.shared.flights) (failure : Failure) :
    w.shared.cache.land w.shared.time f.key f.number (.error failure) =
      ({ w.shared.cache with flights := w.shared.cache.flights.filter (·.2 ≠ f.number) },
        .failed) := by
  have hroute := SharedCache.mem_routes hf
  have hkey : ∀ p ∈ w.shared.cache.flights, p.2 = f.number → p.1 = f.key := by
    intro p hp hnumber
    exact SharedCache.route_unique h.routes_nodup (hnumber ▸ h.registered p hp) hroute
  by_cases hreg : w.shared.cache.flight? f.key = some f.number
  · have hnumber : ∀ p ∈ w.shared.cache.flights, p.1 = f.key → p.2 = f.number := by
      intro p hp hkey
      have hmem : (p.1, p.2) ∈ w.shared.cache.flights := hp
      have hfound := h.consistent.flight?_eq_some hmem
      rw [hkey, hreg] at hfound
      exact (Option.some.inj hfound).symm
    have hfilter : w.shared.cache.flights.filter (·.1 != f.key) =
        w.shared.cache.flights.filter (·.2 ≠ f.number) := by
      refine List.filter_congr fun p hp => ?_
      have hiff : p.1 = f.key ↔ p.2 = f.number := ⟨hnumber p hp, hkey p hp⟩
      rw [Bool.eq_iff_iff]
      simp [hiff]
    simp only [Cache.land, Cache.isRegistered_iff.mpr hreg, if_true, Cache.detach, hfilter]
  · have hnot : w.shared.cache.isRegistered f.key f.number = false := by
      simpa [Cache.isRegistered] using hreg
    have hfilter : w.shared.cache.flights.filter (·.2 ≠ f.number) = w.shared.cache.flights := by
      refine List.filter_eq_self.mpr fun p hp => ?_
      have hne : p.2 ≠ f.number := by
        intro hnumber
        refine hreg (hkey p hp hnumber ▸ hnumber ▸ ?_)
        exact h.consistent.flight?_eq_some hp
      simpa using hne
    rw [hfilter]
    simp [Cache.land, hnot]

/-- All that a failure does. -/
theorem Inv.step_failing (h : w.Inv) (hf : f ∈ w.shared.flights) (failure : Failure) :
    w.step (failing f failure) =
      ({ w with
          shared.cache.flights := w.shared.cache.flights.filter (·.2 ≠ f.number)
          shared.flights := w.shared.flights.filter (·.number != f.number)
          landings := w.landings ++ [(f.number, .error failure)]
          waits := w.waits.filter (·.flight ≠ f.number) },
        w.deliveries f.number (.error failure)) := by
  have hland : w.shared.land f (.error failure) =
      ({ w.shared with
          cache.flights := w.shared.cache.flights.filter (·.2 ≠ f.number)
          flights := w.shared.flights.filter (·.number != f.number) }, .failed) := by
    unfold SharedCache.land
    rw [h.unregister hf failure]
  have harrival : w.shared.arrival f (.error failure) = .error failure := by
    unfold SharedCache.arrival
    split
    · rename_i heq
      cases heq
    · rfl
  simp [failing, TracedCache.step, SharedCache.step, h.flight?_of_mem hf, harrival, authorAfter,
    hland]

/-- A flight that is named in a delivery brought the result that is served, or it
    lands. -/
theorem Inv.flight_of_delivery (h : w.Inv) {e : Event ι} {d : Delivery ι} {n : Nat}
    (hd : d ∈ (w.step e).2) (hflight : d.flight = some n) :
    (∃ r, (n, .ok r) ∈ w.landings) ∨
      (∃ key, (n, key) ∈ w.shared.routes) ∧ ∃ x, (n, x) ∈ (w.step e).1.landings := by
  cases e with
  | request caller key =>
    rcases request_delivery hd with ⟨failure, rfl⟩ | ⟨y, hy, rfl, rfl⟩
    · cases hflight
    · obtain ⟨m, hauthor, -, hland⟩ := h.authored y hy
      obtain rfl := Option.some.inj (hauthor.symm.trans hflight)
      exact .inl ⟨y.result, hland⟩
  | land m x =>
    obtain ⟨⟨y, hy, o, rfl, rfl⟩, -, hland⟩ := land_delivery hd
    obtain rfl := Option.some.inj hflight
    exact .inr ⟨⟨y.key, h.waits y hy⟩, x, hland⟩
  | leave caller => cases hd
  | evict key => cases hd
  | invalidate entity year => cases hd
  | clear => cases hd
  | clock now => cases hd

/-- Nobody is told of a flight before it lands. -/
theorem Inv.flight_ne_of_under_way (h : w.Inv) {es : List (Event ι)} {n : Nat}
    (hroute : (n, key) ∈ (w.run es).1.shared.routes) :
    ∀ d ∈ (w.run es).2, d.flight ≠ some n := by
  intro d hd hflight
  obtain ⟨before, e, after, rfl, hstep⟩ := mem_run hd
  have hbefore := h.run before
  have hlater : ((w.run before).1.step e).1.landings ⊆
      (w.run (before ++ e :: after)).1.landings := by
    rw [run_append, run_cons]
    exact (landings_run _ after).subset
  have hlanded : ∃ x, (n, x) ∈ (w.run (before ++ e :: after)).1.landings := by
    rcases hbefore.flight_of_delivery hstep hflight with ⟨r, hland⟩ | ⟨-, x, hland⟩
    · exact ⟨.ok r, hlater ((landings_step _ e).subset hland)⟩
    · exact ⟨x, hlater hland⟩
  obtain ⟨x, hland⟩ := hlanded
  exact ((h.run _).landed _ hland).2 (List.mem_map_of_mem hroute)

/-- Nobody is told of a flight after it failed. -/
theorem Inv.flight_ne_of_failed (h : w.Inv) {n : Nat} {failure : Failure}
    (hfailed : (n, .error failure) ∈ w.landings) (es : List (Event ι)) :
    ∀ d ∈ (w.run es).2, d.flight ≠ some n := by
  intro d hd hflight
  obtain ⟨before, e, after, rfl, hstep⟩ := mem_run hd
  have hbefore := h.run before
  have hlanded := (w.landings_run before).subset hfailed
  rcases hbefore.flight_of_delivery hstep hflight with ⟨r, hland⟩ | ⟨⟨key, hroute⟩, -⟩
  · cases congrArg Prod.snd (List.inj_on_of_nodup_map hbefore.landed_nodup hland hlanded rfl)
  · exact (hbefore.landed _ hlanded).2 (List.mem_map_of_mem hroute)

/-- The calls that wait for a flight are told of its failure, and no other call is
    told anything by it. -/
theorem Inv.told_failing (h : w.Inv) (hf : f ∈ w.shared.flights) (failure : Failure)
    (after : List (Event ι)) :
    (w.run (failing f failure :: after)).2.filter (·.flight = some f.number) =
      w.deliveries f.number (.error failure) := by
  have hfailed : (f.number, .error failure) ∈ (w.step (failing f failure)).1.landings := by
    rw [h.step_failing hf]
    exact List.mem_append_right _ (List.mem_singleton_self _)
  have hlater := (h.step (failing f failure)).flight_ne_of_failed hfailed after
  have hnobody : ((w.step (failing f failure)).1.run after).2.filter
      (·.flight = some f.number) = [] := by
    simpa using hlater
  rw [run_cons, List.filter_append, hnobody, List.append_nil, h.step_failing hf]
  refine List.filter_eq_self.mpr fun d hd => ?_
  obtain ⟨x, -, rfl⟩ := List.mem_map.mp hd
  simp

/-! ### No trace -/

/-- What there is to say of a flight that fails after a run. -/
structure Traceless (limits : CacheLimits) (now : Except TimeFault Moment) (es : List (Event ι))
    (f : Flight ι) (failure : Failure) : Prop where
  /-- Its callers are told of the failure. -/
  answered :
    let s := ((SharedCache.start limits now).run es).1
    (s.step (failing f failure)).2 =
      f.waiting.map fun caller => ⟨caller, .error failure⟩
  /-- These are the callers of the calls that started it or joined it and were not
      given up. -/
  callers : f.waiting =
    ((reached limits now es).waits.filter (·.flight = f.number)).map (·.caller)
  waits : ∀ x : Wait ι, x.flight = f.number → (x ∈ (reached limits now es).waits ↔
    ∃ before e after, es = before ++ e :: after ∧ (reached limits now before).Boards e x ∧
      .leave x.caller ∉ after)
  /-- No other call is ever told anything by the flight. -/
  told : ∀ after,
    ((start limits now).run (es ++ failing f failure :: after)).2.filter
        (·.flight = some f.number) =
      ((reached limits now es).waits.filter (·.flight = f.number)).map fun x =>
        ⟨x.call, x.caller, x.key, some f.number, .error failure⟩
  /-- Its own registration ends, and the cache is the same in all else. -/
  cache :
    let s := ((SharedCache.start limits now).run es).1
    (s.step (failing f failure)).1.cache =
      { s.cache with flights := s.cache.flights.filter (·.2 ≠ f.number) }
  /-- A flight that is registered for its key from then on is newer. -/
  newer : ∀ after m,
    (reached limits now (es ++ failing f failure :: after)).shared.cache.flight? f.key = some m →
      f.number < m
  /-- If it was registered, nothing is known of its key. -/
  forgotten : (reached limits now es).shared.cache.flight? f.key = some f.number →
    (reached limits now (es ++ [failing f failure])).Unknown f.key
  /-- If neither a newer flight nor an entry is there, neither is until the next
      call for the key. -/
  unknown : ∀ after, (∀ caller, .request caller f.key ∉ after) →
    (reached limits now (es ++ [failing f failure])).Unknown f.key →
    (reached limits now (es ++ failing f failure :: after)).Unknown f.key
  /-- Without them a call starts a flight. -/
  next : ∀ after caller,
    let w := reached limits now (es ++ failing f failure :: after)
    w.Unknown f.key →
      w.shared.lookup f.key = .ok (.started w.shared.cache.misses) ∧
        (w.step (.request caller f.key)).1.starts = w.starts ++ [(w.shared.cache.misses, f.key)]

/-- **A flight that fails leaves no trace**, registered or not, whoever waits for
    it, and whatever happens afterwards. -/
theorem failed_flight_traceless {limits : CacheLimits} {now : Except TimeFault Moment}
    {es : List (Event ι)} {f : Flight ι}
    (hf : f ∈ ((SharedCache.start limits now).run es).1.flights) (failure : Failure) :
    Traceless limits now es f failure := by
  have hshared : (reached limits now es : TracedCache ι).shared =
      ((SharedCache.start limits now).run es).1 := reached_shared limits now es
  have hw : Inv (reached limits now es : TracedCache ι) := reached_inv limits now es
  rw [← hshared] at hf
  have hroute := SharedCache.mem_routes hf
  have hw' := hw.step (failing f failure)
  have hafter : ∀ after, (reached limits now (es ++ failing f failure :: after) : TracedCache ι) =
      (((reached limits now es).step (failing f failure)).1.run after).1 := by
    intro after
    rw [reached_append, run_cons]
  constructor
  case answered =>
    intro s
    show (s.step (failing f failure)).2 = _
    rw [show s = _ from hshared.symm, ← hw.step_answers, ← hw.deliveries_answer hf,
      hw.step_failing hf]
  case callers => exact hw.waiting f hf
  case waits =>
    rintro x hx
    exact mem_waits_iff_of_under_way limits now es (hx ▸ hroute)
  case told =>
    intro after
    have hnobody : ((start limits now : TracedCache ι).run es).2.filter
        (·.flight = some f.number) = [] := by
      simpa using (start_inv limits now).flight_ne_of_under_way hroute
    rw [run_append, List.filter_append, hnobody, List.nil_append]
    exact hw.told_failing hf failure after
  case cache =>
    intro s
    rw [show s = _ from hshared.symm, ← step_shared, hw.step_failing hf]
  case newer =>
    intro after m hm
    rw [hafter] at hm
    refine hw'.newer_run ?_ ?_ after m (Cache.mem_of_flight? hm)
    · exact Nat.lt_of_lt_of_le (hw.lt_misses hroute) (hw.misses_step _)
    · intro k hk
      rw [hw.step_failing hf] at hk
      obtain ⟨hold, hne⟩ := List.mem_filter.mp hk
      have hle := reached_newest limits now es _ hold _ hroute rfl
      exact Nat.lt_of_le_of_ne hle (Ne.symm (by simpa using hne))
  case forgotten =>
    intro hreg
    obtain ⟨hentries, hflight⟩ := hw.land_failed_registered hreg failure
    rw [hafter []]
    exact ⟨Cache.kept?_eq_none_iff.mpr hentries, hflight⟩
  case unknown =>
    intro after hquiet h
    rw [hafter] at h ⊢
    exact h.run hquiet
  case next =>
    intro after caller w h
    exact h.request caller

/-- The first flight was dropped, a newer one is registered, and one of its two
    callers has given up. -/
theorem failed_flight_traceless_detached :
    let key : CacheKey := ⟨.text "acme", .int 2024, .null, .text "f1"⟩
    let es : List (Event Nat) :=
      [.request 1 key, .request 2 key, .evict key, .request 3 key, .leave 1]
    let f : Flight Nat := ⟨0, key, [2]⟩
    let s := ((SharedCache.start .unlimited (.ok default)).run es).1
    (f ∈ s.flights ∧ s.cache.flights = [(key, 1)]) ∧
      Traceless .unlimited (.ok default) es f (.misuse .mistyped) ∧
      (s.step (failing f (.misuse .mistyped))).1.cache.flights = [(key, 1)] := by
  intro key es f s
  have hf : f ∈ s.flights := by decide
  exact ⟨⟨hf, by decide⟩, failed_flight_traceless hf _, by decide⟩

end KeyFigures.TracedCache
