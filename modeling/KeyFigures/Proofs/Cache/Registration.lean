/-
  KeyFigures/Proofs/Cache/Registration.lean
  =========================================
  **A flight is registered until it lands or its key is dropped.**

  A request is met by a live entry, else by the registered flight, else by a
  flight that starts with it and is registered from then on.  Only its landing
  and a drop of its key take the registration away (`Inv.registered_run`), so
  that a result is kept unless its key was dropped meanwhile.

  Callers that ask for the first time after some moment have made none of the
  calls before it (`Later`).
-/
import KeyFigures.Proofs.Cache.Reachable

namespace KeyFigures

/-! ### One request, one landing -/

namespace Cache

/-- The entry that was just put in is never one of those that have to go. -/
theorem mem_store (c : Cache) (e : CacheEntry) : e ∈ (c.refresh e).trim.entries := by
  have hlast : (c.refresh e).entries = (c.dropEntry e.key).entries ++ [e] := rfl
  have hexcess : (c.refresh e).excess ≤ (c.dropEntry e.key).entries.length := by
    unfold excess
    cases hmax : (c.refresh e).limits.maxEntries with
    | none => exact Nat.zero_le _
    | some n =>
      have hpos := (c.refresh e).limits.maxEntries_pos n hmax
      simp only [size, hlast, List.length_append, List.length_singleton]
      omega
  show e ∈ (c.refresh e).entries.drop (c.refresh e).excess
  rw [hlast, List.drop_append_of_le_length hexcess]
  exact List.mem_append_right _ (List.mem_singleton_self e)

/-- The result of a registered flight is stored. -/
theorem land_registered {c : Cache} {key : CacheKey} {n : Nat} (h : c.flight? key = some n)
    (now : Moment) (r : Result) :
    c.land now key n (.ok r) =
      ((c.refresh ⟨key, r, now⟩).trim.detach key,
        .stored ((c.refresh ⟨key, r, now⟩).entries.take (c.refresh ⟨key, r, now⟩).excess)) := by
  unfold land store
  rw [isRegistered_iff.mpr h]
  rfl

end Cache

namespace SharedCache

variable {ι : Type} [DecidableEq ι] {s : SharedCache ι} {key : CacheKey}

omit [DecidableEq ι] in
theorem get?_eq_ok {o : Option CacheEntry} (h : s.get? key = .ok o) :
    s.blocked? key = none ∧ s.cache.get? s.time key = o := by
  unfold get? at h
  split at h
  · cases h
  · rename_i hblocked
    exact ⟨hblocked, Except.ok.inj h⟩

omit [DecidableEq ι] in
/-- Without a live entry a request boards a flight. -/
theorem request_eq_board (h : s.get? key = .ok none) :
    s.cache.request s.time key = (s.cache.expire s.time key).board key := by
  unfold Cache.request
  rw [(get?_eq_ok h).2]

/-- A live entry answers at once. -/
theorem step_hit {e : CacheEntry} (h : s.get? key = .ok (some e)) (caller : ι) :
    (s.step (.request caller key)).2 = [⟨caller, .ok e.result⟩] := by
  obtain ⟨hblocked, hget⟩ := get?_eq_ok h
  simp [step, request, hblocked, Cache.request, hget]

/-- Without a live entry a request joins the registered flight. -/
theorem step_join {n : Nat} (h : s.get? key = .ok none) (hflight : s.cache.flight? key = some n)
    (caller : ι) :
    (s.step (.request caller key)).2 = [] ∧
      (s.step (.request caller key)).1.flights = s.flights.map fun f =>
        if f.number = n then { f with waiting := f.waiting ++ [caller] } else f := by
  have hboard : (s.cache.expire s.time key).flight? key = some n := by
    unfold Cache.flight?
    rw [Cache.expire_flights]
    exact hflight
  have hrequest := request_eq_board h
  unfold Cache.board at hrequest
  rw [hboard] at hrequest
  simp [step, request, (get?_eq_ok h).1, hrequest]

omit [DecidableEq ι] in
/-- Without a registered flight either, a request starts one. -/
theorem request_started (h : s.get? key = .ok none) (hflight : s.cache.flight? key = none) :
    ∃ c, s.cache.request s.time key = (c, .started s.cache.misses) ∧
      c.flights = s.cache.flights ++ [(key, s.cache.misses)] := by
  have hboard : (s.cache.expire s.time key).flight? key = none := by
    unfold Cache.flight?
    rw [Cache.expire_flights]
    exact hflight
  have hmisses : (s.cache.expire s.time key).misses = s.cache.misses :=
    congrArg (fun t => t.2.1) (Cache.expire_tally _ _ _)
  rw [request_eq_board h]
  unfold Cache.board
  rw [hboard, hmisses]
  exact ⟨_, rfl, by rw [Cache.expire_flights]⟩

theorem step_start (h : s.get? key = .ok none) (hflight : s.cache.flight? key = none)
    (caller : ι) :
    (s.step (.request caller key)).1.cache.flight? key = some s.cache.misses := by
  have hnew : s.cache.flights.find? (·.1 == key) = none := Option.map_eq_none_iff.mp hflight
  obtain ⟨c, hrequest, hflights⟩ := request_started h hflight
  simp [step, request, (get?_eq_ok h).1, hrequest, Cache.flight?, hflights, List.find?_append, hnew]

end SharedCache

namespace TracedCache

section

variable {ι : Type} [DecidableEq ι] {w : TracedCache ι} {key : CacheKey} {n : Nat}

theorem step_start (h : w.shared.get? key = .ok none)
    (hflight : w.shared.cache.flight? key = none) (caller : ι) :
    (w.shared.cache.misses, key) ∈ (w.step (.request caller key)).1.starts := by
  obtain ⟨c, hrequest, -⟩ := SharedCache.request_started h hflight
  simp [step, SharedCache.lookup, (SharedCache.get?_eq_ok h).1, hrequest]

/-- Only its own end and a drop of its key take the registration of a flight
    away. -/
theorem Inv.registered_step (h : w.Inv) (hreg : w.shared.cache.flight? key = some n)
    {e : SharedCache.Event ι} (hland : ∀ x, e ≠ .land n x)
    (hdrop : ∀ d : Drop, e = d.event → d.selects key = false) :
    (w.step e).1.shared.cache.flight? key = some n := by
  have hmem := Cache.mem_of_flight? hreg
  refine (h.step e).consistent.flight?_eq_some ?_
  have hstays : ∀ d : Drop, e = d.event → (key, n) ∈ (w.step e).1.shared.cache.flights := by
    rintro d rfl
    rw [step_drop]
    exact List.mem_filter.mpr ⟨hmem, by simpa using hdrop d rfl⟩
  cases e with
  | request caller k =>
    have hexpired := Cache.expire_flights w.shared.cache w.shared.time k
    rcases w.step_request caller k with
      ⟨fault, -, heq⟩ | ⟨-, e, -, -, heq⟩ | ⟨-, m, -, heq⟩ | ⟨-, -, -, heq⟩ <;> rw [heq]
    · exact hmem
    · exact hmem
    · exact hexpired.symm ▸ hmem
    · exact List.mem_append_left _ hmem
  | land m x =>
    cases hf : w.shared.flight? m with
    | none =>
      rw [step_land_none hf]
      exact hmem
    | some f =>
      obtain ⟨-, rfl⟩ := SharedCache.mem_of_flight? hf
      have hother : w.shared.cache.flight? f.key = some f.number → key ≠ f.key := by
        rintro hreg' rfl
        rw [hreg] at hreg'
        obtain rfl := Option.some.inj hreg'
        exact hland x rfl
      rcases step_land hf x with ⟨r, -, hreg', heq⟩ | ⟨failure, hreg', heq⟩ | ⟨-, heq⟩ <;> rw [heq]
      · exact List.mem_filter.mpr ⟨hmem, by simpa using hother hreg'⟩
      · exact List.mem_filter.mpr ⟨hmem, by simpa using hother hreg'⟩
      · exact hmem
  | leave caller => exact hmem
  | evict k => exact hstays (.evict k) rfl
  | invalidate entity year => exact hstays (.invalidate entity year) rfl
  | clear => exact hstays .clear rfl
  | clock now => exact hmem

theorem Inv.registered_run (h : w.Inv) (hreg : w.shared.cache.flight? key = some n)
    {es : List (SharedCache.Event ι)} (hland : ∀ x, .land n x ∉ es)
    (hdrop : ∀ d : Drop, d.event ∈ es → d.selects key = false) :
    (w.run es).1.shared.cache.flight? key = some n := by
  induction es generalizing w with
  | nil => exact hreg
  | cons e es ih =>
    rw [run_cons]
    refine ih (h.step e) (h.registered_step hreg ?_ ?_)
      (fun x hmem => hland x (List.mem_cons_of_mem e hmem))
      (fun d hmem => hdrop d (List.mem_cons_of_mem e hmem))
    · rintro x rfl
      exact hland x List.mem_cons_self
    · rintro d rfl
      exact hdrop d List.mem_cons_self

end

/-! ### Later callers -/

variable {w : TracedCache Nat}

/-- Callers from number `m` on have made only calls from number `c` on. -/
structure Later (m c : Nat) (w : TracedCache Nat) : Prop where
  calls : c ≤ w.calls
  waits : ∀ x ∈ w.waits, m ≤ x.caller → c ≤ x.call

variable {m c : Nat}

theorem Later.step (h : w.Later m c) (e : SharedCache.Event Nat) :
    (w.step e).1.Later m c ∧ ∀ d ∈ (w.step e).2, m ≤ d.caller → c ≤ d.call := by
  have hmore : ∀ {x : Wait Nat}, x.call = w.calls → ∀ y ∈ w.waits ++ [x], m ≤ y.caller →
      c ≤ y.call := by
    intro x hx y hy hcaller
    rcases List.mem_append.mp hy with hy | hy
    · exact h.waits y hy hcaller
    · obtain rfl := List.mem_singleton.mp hy
      exact hx ▸ h.calls
  cases e with
  | request caller k =>
    rcases w.step_request caller k with
      ⟨fault, -, heq⟩ | ⟨-, e, -, -, heq⟩ | ⟨-, m, -, heq⟩ | ⟨-, -, -, heq⟩ <;> rw [heq]
    · exact ⟨⟨Nat.le_succ_of_le h.calls, h.waits⟩, by simpa using fun _ => h.calls⟩
    · exact ⟨⟨Nat.le_succ_of_le h.calls, h.waits⟩, by simpa using fun _ => h.calls⟩
    · exact ⟨⟨Nat.le_succ_of_le h.calls, hmore rfl⟩, List.forall_mem_nil _⟩
    · exact ⟨⟨Nat.le_succ_of_le h.calls, hmore rfl⟩, List.forall_mem_nil _⟩
  | land k x =>
    refine ⟨?_, ?_⟩
    · cases hf : w.shared.flight? k with
      | none =>
        rw [step_land_none hf]
        exact h
      | some f =>
        rcases step_land hf x with ⟨r, -, -, heq⟩ | ⟨failure, -, heq⟩ | ⟨-, heq⟩ <;> rw [heq] <;>
          exact ⟨h.calls, fun x hx => h.waits x (List.mem_of_mem_filter hx)⟩
    · intro d hd
      obtain ⟨⟨x, hx, o, -, rfl⟩, -, -⟩ := land_delivery hd
      exact h.waits x hx
  | leave caller =>
    exact ⟨⟨h.calls, fun x hx => h.waits x (List.mem_of_mem_filter hx)⟩, List.forall_mem_nil _⟩
  | evict k => exact ⟨⟨h.calls, h.waits⟩, List.forall_mem_nil _⟩
  | invalidate entity year => exact ⟨⟨h.calls, h.waits⟩, List.forall_mem_nil _⟩
  | clear => exact ⟨⟨h.calls, h.waits⟩, List.forall_mem_nil _⟩
  | clock now => exact ⟨⟨h.calls, h.waits⟩, List.forall_mem_nil _⟩

theorem Later.run_delivery (h : w.Later m c) {es : List (SharedCache.Event Nat)} :
    ∀ d ∈ (w.run es).2, m ≤ d.caller → c ≤ d.call := by
  induction es generalizing w with
  | nil => exact List.forall_mem_nil _
  | cons e es ih =>
    intro d hd
    rw [run_cons] at hd
    rcases List.mem_append.mp hd with hd | hd
    · exact (h.step e).2 d hd
    · exact ih (h.step e).1 d hd

end TracedCache

end KeyFigures
