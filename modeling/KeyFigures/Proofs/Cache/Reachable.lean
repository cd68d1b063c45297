/-
  KeyFigures/Proofs/Cache/Reachable.lean
  ======================================
  **What holds in every state of a shared cache.**

  `TracedCache.Inv` ties the two tables of a cache to the flights under way, to
  the callers that wait and to the history: flights are numbered as they start,
  what is registered is under way, every caller waits for a flight of the key it
  asked for, and every kept result was brought by a flight of its key.

  An event changes the state in at most three moves.  Each move is a lemma
  (`Inv.withCache`, `Inv.board`, `Inv.depart`, `Inv.end`, `Inv.keep`,
  `Inv.leave`), `Inv.step` puts them together, and `reached_inv` follows by
  induction on the run.
-/
import KeyFigures.Proofs.Cache.Traced

namespace KeyFigures

namespace SharedCache

variable {ι : Type}

theorem routes_map_fst (s : SharedCache ι) :
    s.routes.map Prod.fst = s.flights.map Flight.number := by
  simp [routes]

theorem mem_routes {s : SharedCache ι} {f : Flight ι} (h : f ∈ s.flights) :
    (f.number, f.key) ∈ s.routes :=
  List.mem_map_of_mem h

/-- A flight number has one key. -/
theorem route_unique {s : SharedCache ι} (h : (s.routes.map Prod.fst).Nodup) {n : Nat}
    {k k' : CacheKey} (hk : (n, k) ∈ s.routes) (hk' : (n, k') ∈ s.routes) : k = k' :=
  congrArg Prod.snd (List.inj_on_of_nodup_map h hk hk' rfl)

theorem flight?_of_route {s : SharedCache ι} (h : (s.routes.map Prod.fst).Nodup) {n : Nat}
    {key : CacheKey} (hroute : (n, key) ∈ s.routes) :
    ∃ f, s.flight? n = some f ∧ f.number = n ∧ f.key = key := by
  obtain ⟨f, hf, heq⟩ := List.mem_map.mp hroute
  obtain ⟨rfl, rfl⟩ := Prod.mk.inj heq
  rw [routes_map_fst] at h
  exact ⟨f, find?_eq_some_of_nodup h hf, rfl, rfl⟩

end SharedCache

namespace TracedCache

variable {ι : Type}

/-- What holds of a traced cache at any time. -/
structure Inv (w : TracedCache ι) : Prop where
  consistent : w.shared.cache.Consistent
  /-- Flights are numbered as they start. -/
  numbered : w.starts.map Prod.fst = List.range w.shared.cache.misses
  routes_nodup : (w.shared.routes.map Prod.fst).Nodup
  started : ∀ p ∈ w.shared.routes, p ∈ w.starts
  /-- What is registered is under way. -/
  registered : ∀ p ∈ w.shared.cache.flights, (p.2, p.1) ∈ w.shared.routes
  /-- Who waits waits for a flight of its key. -/
  waits : ∀ x ∈ w.waits, (x.flight, x.key) ∈ w.shared.routes
  called : ∀ x ∈ w.waits, x.call < w.calls
  waiting : ∀ f ∈ w.shared.flights,
    f.waiting = (w.waits.filter (·.flight = f.number)).map (·.caller)
  /-- A flight lands once. -/
  landed_nodup : (w.landings.map Prod.fst).Nodup
  landed : ∀ p ∈ w.landings, p.1 ∈ w.starts.map Prod.fst ∧ p.1 ∉ w.shared.routes.map Prod.fst
  /-- A kept result was brought by a flight of its key. -/
  authored : ∀ e ∈ w.shared.cache.entries, ∃ n, w.author e.key = some n ∧
    (n, e.key) ∈ w.starts ∧ (n, .ok e.result) ∈ w.landings

variable {w : TracedCache ι}

/-- The flights under way have numbers of flights that started. -/
theorem Inv.lt_misses (h : w.Inv) {n : Nat} {key : CacheKey} (hroute : (n, key) ∈ w.shared.routes) :
    n < w.shared.cache.misses := by
  have hmem : n ∈ w.starts.map Prod.fst := List.mem_map_of_mem (h.started _ hroute)
  rw [h.numbered] at hmem
  exact List.mem_range.mp hmem

theorem Inv.starts_length (h : w.Inv) :
    w.starts.length = w.shared.cache.misses := by
  have hlength := congrArg List.length h.numbered
  simpa using hlength

theorem Inv.starts_nodup (h : w.Inv) : (w.starts.map Prod.fst).Nodup := by
  rw [h.numbered]
  exact List.nodup_range

/-- The callers of a flight are those whose calls wait for it. -/
theorem Inv.deliveries_answer (h : w.Inv) {f : Flight ι} (hf : f ∈ w.shared.flights)
    (outcome : Attempt Result) :
    (w.deliveries f.number outcome).map Delivery.answer =
      f.waiting.map fun caller => ⟨caller, outcome⟩ := by
  rw [h.waiting f hf, deliveries, List.map_map, List.map_map]
  rfl

/-! ### The moves -/

/-- The cache loses rows, the clock moves, or a call is counted. -/
theorem Inv.withCache (h : w.Inv) {c : Cache} (hc : c.Consistent)
    (hentries : ∀ e ∈ c.entries, e ∈ w.shared.cache.entries)
    (hflights : ∀ p ∈ c.flights, p ∈ w.shared.cache.flights)
    (hmisses : c.misses = w.shared.cache.misses) (now : Except TimeFault Moment) {calls : Nat}
    (hcalls : w.calls ≤ calls) :
    Inv { w with shared.cache := c, shared.now := now, calls := calls } where
  consistent := hc
  numbered := by
    rw [h.numbered, hmisses]
  routes_nodup := h.routes_nodup
  started := h.started
  registered := fun p hp => h.registered p (hflights p hp)
  waits := h.waits
  called := fun x hx => Nat.lt_of_lt_of_le (h.called x hx) hcalls
  waiting := h.waiting
  landed_nodup := h.landed_nodup
  landed := h.landed
  authored := fun e he => h.authored e (hentries e he)

/-- A call joins a flight under way. -/
theorem Inv.board (h : w.Inv) {n : Nat} {key : CacheKey} (hroute : (n, key) ∈ w.shared.routes)
    (caller : ι) :
    Inv { w with
      shared.flights := w.shared.flights.map fun f =>
        if f.number = n then { f with waiting := f.waiting ++ [caller] } else f
      calls := w.calls + 1
      waits := w.waits ++ [⟨w.calls, caller, key, n⟩] } := by
  have hroutes : (SharedCache.routes { w.shared with
      flights := w.shared.flights.map fun f =>
        if f.number = n then { f with waiting := f.waiting ++ [caller] } else f }) =
      w.shared.routes := by
    simp only [SharedCache.routes, List.map_map]
    refine List.map_congr_left fun f _ => ?_
    dsimp only [Function.comp_apply]
    split <;> rfl
  constructor
  case consistent => exact h.consistent
  case numbered => exact h.numbered
  case routes_nodup => rw [hroutes]; exact h.routes_nodup
  case started => rw [hroutes]; exact h.started
  case registered => rw [hroutes]; exact h.registered
  case waits =>
    rw [hroutes]
    intro x hx
    rcases List.mem_append.mp hx with hx | hx
    · exact h.waits x hx
    · obtain rfl := List.mem_singleton.mp hx
      exact hroute
  case called =>
    intro x hx
    rcases List.mem_append.mp hx with hx | hx
    · exact Nat.lt_succ_of_lt (h.called x hx)
    · obtain rfl := List.mem_singleton.mp hx
      exact Nat.lt_succ_self _
  case waiting =>
    intro f' hf'
    obtain ⟨f, hf, rfl⟩ := List.mem_map.mp hf'
    have hwaiting := h.waiting f hf
    by_cases hn : f.number = n
    · subst hn
      simp [hwaiting, List.filter_append]
    · simp [hn, hwaiting, List.filter_append, Ne.symm hn]
  case landed_nodup => exact h.landed_nodup
  case landed => rw [hroutes]; exact h.landed
  case authored => exact h.authored

/-- A flight starts for a key that is in neither table. -/
theorem Inv.depart (h : w.Inv) {key : CacheKey} (hkept : ∀ e ∈ w.shared.cache.entries, e.key ≠ key)
    (hflight : ∀ p ∈ w.shared.cache.flights, p.1 ≠ key) (caller : ι) :
    Inv { w with
      shared.cache := { w.shared.cache with
        misses := w.shared.cache.misses + 1
        flights := w.shared.cache.flights ++ [(key, w.shared.cache.misses)] }
      shared.flights := w.shared.flights ++ [⟨w.shared.cache.misses, key, [caller]⟩]
      calls := w.calls + 1
      starts := w.starts ++ [(w.shared.cache.misses, key)]
      waits := w.waits ++ [⟨w.calls, caller, key, w.shared.cache.misses⟩] } := by
  have hroutes : ∀ c : Cache, (SharedCache.routes { w.shared with
      cache := c
      flights := w.shared.flights ++ [⟨w.shared.cache.misses, key, [caller]⟩] }) =
      w.shared.routes ++ [(w.shared.cache.misses, key)] := by
    intro c
    simp [SharedCache.routes]
  have hfresh : ∀ p ∈ w.shared.routes, p.1 ≠ w.shared.cache.misses := by
    intro p hp
    exact Nat.ne_of_lt (h.lt_misses hp)
  constructor
  case consistent =>
    have happend := h.consistent.append_flight (n := w.shared.cache.misses) hkept hflight
    exact happend.sublist (List.Sublist.refl _) (List.Sublist.refl _)
  case numbered =>
    rw [List.map_append, h.numbered, List.range_succ]
    rfl
  case routes_nodup =>
    rw [hroutes, List.map_append, List.nodup_append]
    refine ⟨h.routes_nodup, by simp, ?_⟩
    intro n hn m hm
    obtain ⟨p, hp, rfl⟩ := List.mem_map.mp hn
    obtain rfl := List.mem_singleton.mp hm
    exact hfresh p hp
  case started =>
    rw [hroutes]
    intro p hp
    rcases List.mem_append.mp hp with hp | hp
    · exact List.mem_append_left _ (h.started p hp)
    · exact List.mem_append_right _ hp
  case registered =>
    rw [hroutes]
    intro p hp
    rcases List.mem_append.mp hp with hp | hp
    · exact List.mem_append_left _ (h.registered p hp)
    · obtain rfl := List.mem_singleton.mp hp
      exact List.mem_append_right _ (List.mem_singleton_self _)
  case waits =>
    rw [hroutes]
    intro x hx
    rcases List.mem_append.mp hx with hx | hx
    · exact List.mem_append_left _ (h.waits x hx)
    · obtain rfl := List.mem_singleton.mp hx
      exact List.mem_append_right _ (List.mem_singleton_self _)
  case called =>
    intro x hx
    rcases List.mem_append.mp hx with hx | hx
    · exact Nat.lt_succ_of_lt (h.called x hx)
    · obtain rfl := List.mem_singleton.mp hx
      exact Nat.lt_succ_self _
  case waiting =>
    intro f hf
    rcases List.mem_append.mp hf with hf | hf
    · have hne := hfresh _ (SharedCache.mem_routes hf)
      simp [h.waiting f hf, List.filter_append, Ne.symm hne]
    · obtain rfl := List.mem_singleton.mp hf
      -- Nobody waits yet for a flight that has not started.
      have hnobody : w.waits.filter (·.flight = w.shared.cache.misses) = [] := by
        simpa using fun x hx => hfresh _ (h.waits x hx)
      simp [hnobody, List.filter_append]
  case landed_nodup => exact h.landed_nodup
  case landed =>
    rw [hroutes]
    intro p hp
    obtain ⟨hstart, hroute⟩ := h.landed p hp
    have hlt : p.1 < w.shared.cache.misses := by
      rw [h.numbered] at hstart
      exact List.mem_range.mp hstart
    refine ⟨?_, ?_⟩
    · rw [List.map_append]
      exact List.mem_append_left _ hstart
    · simpa using ⟨by simpa using hroute, Nat.ne_of_lt hlt⟩
  case authored =>
    intro e he
    obtain ⟨n, hauthor, hstart, hland⟩ := h.authored e he
    exact ⟨n, hauthor, List.mem_append_left _ hstart, hland⟩

/-- A flight that is not registered comes to its end. -/
theorem Inv.end (h : w.Inv) {n : Nat} {key : CacheKey} (hroute : (n, key) ∈ w.shared.routes)
    (hflight : ∀ p ∈ w.shared.cache.flights, p.2 ≠ n) (outcome : Attempt Result) :
    Inv { w with
      shared.flights := w.shared.flights.filter (·.number != n)
      landings := w.landings ++ [(n, outcome)]
      waits := w.waits.filter (·.flight ≠ n) } := by
  have hroutes : (SharedCache.routes { w.shared with
      flights := w.shared.flights.filter (·.number != n) }) =
      w.shared.routes.filter (·.1 != n) := by
    simp [SharedCache.routes, List.filter_map, Function.comp_def]
  have hstay : ∀ {p : Nat × CacheKey}, p ∈ w.shared.routes → p.1 ≠ n →
      p ∈ w.shared.routes.filter (·.1 != n) := by
    intro p hp hne
    exact List.mem_filter.mpr ⟨hp, by simpa using hne⟩
  constructor
  case consistent => exact h.consistent
  case numbered => exact h.numbered
  case routes_nodup =>
    rw [hroutes]
    exact h.routes_nodup.sublist (List.filter_sublist.map _)
  case started =>
    rw [hroutes]
    intro p hp
    exact h.started p (List.mem_of_mem_filter hp)
  case registered =>
    rw [hroutes]
    intro p hp
    exact hstay (h.registered p hp) (hflight p hp)
  case waits =>
    rw [hroutes]
    intro x hx
    obtain ⟨hmem, hne⟩ := List.mem_filter.mp hx
    exact hstay (h.waits x hmem) (by simpa using hne)
  case called =>
    intro x hx
    exact h.called x (List.mem_of_mem_filter hx)
  case waiting =>
    intro f hf
    obtain ⟨hmem, hne⟩ := List.mem_filter.mp hf
    have hne' : f.number ≠ n := by simpa using hne
    rw [h.waiting f hmem, List.filter_filter]
    refine congrArg _ (List.filter_congr fun x _ => ?_)
    by_cases hx : x.flight = f.number
    · simp [hx, hne']
    · simp [hx]
  case landed_nodup =>
    rw [List.map_append, List.nodup_append]
    refine ⟨h.landed_nodup, by simp, ?_⟩
    intro m hm l hl
    obtain ⟨p, hp, rfl⟩ := List.mem_map.mp hm
    obtain rfl := List.mem_singleton.mp hl
    intro heq
    exact (h.landed p hp).2 (heq ▸ List.mem_map_of_mem hroute)
  case landed =>
    rw [hroutes]
    intro p hp
    rcases List.mem_append.mp hp with hp | hp
    · obtain ⟨hstart, hnot⟩ := h.landed p hp
      exact ⟨hstart, fun hmem => hnot ((List.filter_sublist.map _).subset hmem)⟩
    · obtain rfl := List.mem_singleton.mp hp
      exact ⟨List.mem_map_of_mem (h.started _ hroute), by simp⟩
  case authored =>
    intro e he
    obtain ⟨m, hauthor, hstart, hland⟩ := h.authored e he
    exact ⟨m, hauthor, hstart, List.mem_append_left _ hland⟩

/-- What a flight brought is kept, unless another flight is registered for the
    key. -/
theorem Inv.keep (h : w.Inv) {e : CacheEntry} {n : Nat}
    (hflight : ∀ p ∈ w.shared.cache.flights, p.1 ≠ e.key) (hstart : (n, e.key) ∈ w.starts)
    (hland : (n, .ok e.result) ∈ w.landings) :
    Inv { w with
      shared.cache := (w.shared.cache.refresh e).trim
      author := Function.update w.author e.key (some n) } where
  consistent := h.consistent.store hflight
  numbered := h.numbered
  routes_nodup := h.routes_nodup
  started := h.started
  registered := h.registered
  waits := h.waits
  called := h.called
  waiting := h.waiting
  landed_nodup := h.landed_nodup
  landed := h.landed
  authored := by
    intro x hx
    rcases Cache.mem_refresh.mp (Cache.mem_of_mem_trim hx) with ⟨hold, hne⟩ | rfl
    · obtain ⟨m, hauthor, hstart', hland'⟩ := h.authored x hold
      exact ⟨m, by rw [← hauthor]; exact Function.update_of_ne hne _ _, hstart', hland'⟩
    · exact ⟨n, Function.update_self _ _ _, hstart, hland⟩

theorem start_inv (limits : CacheLimits) (now : Except TimeFault Moment) :
    Inv (start limits now : TracedCache ι) := by
  constructor <;> simp [start, SharedCache.start, SharedCache.routes, Cache.empty]
  constructor <;> simp

variable [DecidableEq ι]

open SharedCache (Event)

theorem Inv.leave (h : w.Inv) (caller : ι) :
    Inv { w with
      shared := w.shared.leave caller
      waits := w.waits.filter (·.caller ≠ caller) } := by
  have hroutes : (w.shared.leave caller).routes = w.shared.routes := by
    simp [SharedCache.routes, SharedCache.leave]
  constructor
  case consistent => exact h.consistent
  case numbered => exact h.numbered
  case routes_nodup => rw [hroutes]; exact h.routes_nodup
  case started => rw [hroutes]; exact h.started
  case registered => rw [hroutes]; exact h.registered
  case waits =>
    rw [hroutes]
    intro x hx
    exact h.waits x (List.mem_of_mem_filter hx)
  case called =>
    intro x hx
    exact h.called x (List.mem_of_mem_filter hx)
  case waiting =>
    intro f' hf'
    obtain ⟨f, hf, rfl⟩ := List.mem_map.mp hf'
    dsimp only
    rw [h.waiting f hf, List.filter_map, List.filter_filter, List.filter_filter]
    refine congrArg _ (List.filter_congr fun x _ => ?_)
    simp [Bool.and_comm]
  case landed_nodup => exact h.landed_nodup
  case landed => rw [hroutes]; exact h.landed
  case authored => exact h.authored

/-! ### Steps and runs -/

theorem Inv.request (h : w.Inv) (caller : ι) (key : CacheKey) :
    (w.step (.request caller key)).1.Inv := by
  obtain ⟨entries, evictions, hexpire, hsub⟩ := w.shared.cache.expire_eq w.shared.time key
  have hexpired : Inv { w with
      shared.cache := { w.shared.cache with entries := entries, evictions := evictions } } :=
    h.withCache (c := { w.shared.cache with entries := entries, evictions := evictions })
      (h.consistent.sublist hsub (List.Sublist.refl _)) (fun _ he => hsub.subset he)
      (fun _ hp => hp) rfl _ (Nat.le_refl _)
  rcases w.step_request caller key with
    ⟨fault, -, heq⟩ | ⟨-, e, he, rfl, heq⟩ | ⟨-, n, hn, heq⟩ | ⟨hblocked, hget, hn, heq⟩
  · rw [heq]
    exact h.withCache h.consistent (fun _ he => he) (fun _ hp => hp) rfl _ (Nat.le_succ _)
  · rw [heq]
    have hfree : ∀ p ∈ w.shared.cache.flights, p.1 ≠ e.key := by
      intro p hp hkey
      exact h.consistent.apart e he p hp hkey.symm
    have hcache : Cache.Consistent
        { w.shared.cache.refresh e with hits := w.shared.cache.hits + 1 } :=
      (h.consistent.refresh hfree).sublist (List.Sublist.refl _) (List.Sublist.refl _)
    exact h.withCache hcache (fun _ hx => Cache.mem_of_mem_refresh he hx) (fun _ hp => hp) rfl _
      (Nat.le_succ _)
  · rw [heq, hexpire]
    have hcounted := hexpired.withCache
      (c := { w.shared.cache with
        entries := entries
        evictions := evictions
        coalesced := w.shared.cache.coalesced + 1 })
      (hexpired.consistent.sublist (List.Sublist.refl _) (List.Sublist.refl _))
      (fun _ he => he) (fun _ hp => hp) rfl w.shared.now (Nat.le_refl _)
    exact hcounted.board (h.registered _ (Cache.mem_of_flight? hn)) caller
  · have hnone : w.shared.cache.get? w.shared.time key = none := by
      simpa [SharedCache.get?, hblocked] using hget
    have hkept := Cache.kept?_eq_none_iff.mp (Cache.kept?_expire_eq_none hnone)
    rw [hexpire] at hkept
    rw [heq, hexpire]
    exact hexpired.depart hkept (Cache.flight?_eq_none_iff.mp hn) caller

theorem Inv.land (h : w.Inv) (n : Nat) (outcome : Attempt Result) :
    (w.step (.land n outcome)).1.Inv := by
  cases hf : w.shared.flight? n with
  | none =>
    rw [step_land_none hf]
    exact h
  | some f =>
    obtain ⟨hmem, rfl⟩ := SharedCache.mem_of_flight? hf
    have hroute := SharedCache.mem_routes hmem
    -- Once its key is detached, nothing is registered under the number.
    have hdetached : ∀ p ∈ (w.shared.cache.detach f.key).flights, p.2 ≠ f.number := by
      intro p hp heq
      obtain ⟨hp, hne⟩ := List.mem_filter.mp hp
      have hroute' := h.registered p hp
      rw [heq] at hroute'
      rw [SharedCache.route_unique h.routes_nodup hroute' hroute] at hne
      simp at hne
    have hdetach : Inv { w with shared.cache := w.shared.cache.detach f.key } :=
      h.withCache (h.consistent.detach f.key) (fun _ he => he)
        (fun _ hp => List.mem_of_mem_filter hp) rfl _ (Nat.le_refl _)
    rcases step_land hf outcome with ⟨r, rfl, hreg, heq⟩ | ⟨failure, hreg, heq⟩ | ⟨hreg, heq⟩
    · rw [heq]
      have hend := hdetach.end hroute hdetached (.ok r)
      exact hend.keep (Cache.flight?_eq_none_iff.mp (Cache.flight?_detach_self _ _))
        (h.started _ hroute) (List.mem_append_right _ (List.mem_singleton_self _))
    · rw [heq]
      exact hdetach.end hroute hdetached outcome
    · rw [heq]
      refine h.end hroute ?_ outcome
      intro p hp heq
      have hroute' := h.registered p hp
      rw [heq] at hroute'
      have hkey := SharedCache.route_unique h.routes_nodup hroute' hroute
      apply hreg
      rw [← hkey, ← heq]
      exact h.consistent.flight?_eq_some hp

theorem Inv.drop (h : w.Inv) (d : Drop) : (w.step d.event).1.Inv := by
  rw [step_drop]
  exact h.withCache (h.consistent.dropWhere d.selects) (fun _ he => List.mem_of_mem_filter he)
    (fun _ hp => List.mem_of_mem_filter hp) rfl _ (Nat.le_refl _)

theorem Inv.step (h : w.Inv) (e : Event ι) : (w.step e).1.Inv := by
  cases e with
  | request caller key => exact h.request caller key
  | land n outcome => exact h.land n outcome
  | leave caller => exact h.leave caller
  | evict key => exact h.drop (.evict key)
  | invalidate entity year => exact h.drop (.invalidate entity year)
  | clear => exact h.drop .clear
  | clock now =>
    exact h.withCache h.consistent (fun _ he => he) (fun _ hp => hp) rfl now (Nat.le_refl _)

theorem Inv.run (h : w.Inv) (es : List (Event ι)) : (w.run es).1.Inv :=
  run_induction (fun _ e h => h.step e) h es

theorem reached_inv (limits : CacheLimits) (now : Except TimeFault Moment)
    (es : List (Event ι)) : Inv (reached limits now es) :=
  (start_inv limits now).run es

/-! ### Answers -/

theorem Inv.step_answers (h : w.Inv) (e : Event ι) :
    (w.step e).2.map Delivery.answer = (w.shared.step e).2 := by
  cases e with
  | request caller key =>
    cases hblocked : w.shared.blocked? key with
    | some fault => simp [TracedCache.step, SharedCache.step, SharedCache.lookup, hblocked, Delivery.answer]
    | none =>
      cases hrequest : w.shared.cache.request w.shared.time key with
      | mk c lookup =>
        cases lookup <;>
          simp [TracedCache.step, SharedCache.step, SharedCache.lookup, SharedCache.request, hblocked,
            hrequest, Delivery.answer]
  | land n outcome =>
    cases hf : w.shared.flight? n with
    | none => simp [TracedCache.step, SharedCache.step, hf]
    | some f =>
      obtain ⟨hmem, rfl⟩ := SharedCache.mem_of_flight? hf
      simp [TracedCache.step, SharedCache.step, hf, h.deliveries_answer hmem]
  | leave caller => rfl
  | evict key => rfl
  | invalidate entity year => rfl
  | clear => rfl
  | clock now => rfl

theorem Inv.run_answers (h : w.Inv) (es : List (Event ι)) :
    (w.run es).2.map Delivery.answer = (w.shared.run es).2 := by
  induction es generalizing w with
  | nil => rfl
  | cons e rest ih =>
    rw [run_cons, List.map_append, h.step_answers, ih (h.step e), step_shared]
    rfl

/-! ### Where results come from -/

/-- A delivery with a result names a flight of its key that brought it. -/
def Sourced (w : TracedCache ι) (d : Delivery ι) : Prop :=
  ∀ r, d.outcome = .ok r →
    ∃ n, d.flight = some n ∧ (n, d.key) ∈ w.starts ∧ (n, .ok r) ∈ w.landings

theorem Inv.sourced_step (h : w.Inv) {e : Event ι} {d : Delivery ι} (hd : d ∈ (w.step e).2) :
    (w.step e).1.Sourced d := by
  intro r hr
  cases e with
  | request caller key =>
    rcases request_delivery hd with ⟨failure, rfl⟩ | ⟨e, he, rfl, rfl⟩
    · cases hr
    · obtain rfl := Except.ok.inj hr
      obtain ⟨n, hauthor, hstart, hland⟩ := h.authored e he
      exact ⟨n, hauthor, (w.starts_step _).subset hstart, (w.landings_step _).subset hland⟩
  | land n outcome =>
    obtain ⟨⟨x, hx, o, rfl, rfl⟩, hresult, hland⟩ := land_delivery hd
    rw [hresult r hr] at hland ⊢
    exact ⟨x.flight, rfl, (w.starts_step _).subset (h.started _ (h.waits x hx)), hland⟩
  | leave caller => cases hd
  | evict key => cases hd
  | invalidate entity year => cases hd
  | clear => cases hd
  | clock now => cases hd

theorem Sourced.run {d : Delivery ι} (h : w.Sourced d) (es : List (Event ι)) :
    (w.run es).1.Sourced d := by
  intro r hr
  obtain ⟨n, hflight, hstart, hland⟩ := h r hr
  exact ⟨n, hflight, (w.starts_run es).subset hstart, (w.landings_run es).subset hland⟩

theorem Inv.sourced_run (h : w.Inv) {es : List (Event ι)} {d : Delivery ι}
    (hd : d ∈ (w.run es).2) : (w.run es).1.Sourced d := by
  obtain ⟨before, e, after, rfl, hstep⟩ := mem_run hd
  rw [run_append, run_cons]
  exact ((h.run before).sourced_step hstep).run after

end TracedCache

end KeyFigures
