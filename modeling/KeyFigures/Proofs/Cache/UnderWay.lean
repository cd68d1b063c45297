/-
  KeyFigures/Proofs/Cache/UnderWay.lean
  =====================================
  **Flights under way, and who waits for them.**

  A flight gets under way with the call that starts it, and it ends with its
  landing; nothing else puts a number on the list or takes it off
  (`Inv.routes_step`).  While it is under way, either it is registered or its key
  was dropped (`under_way_cases`).

  A call waits from when it boards a flight until the flight lands or its caller
  gives up, so that who waits can be read off the history (`mem_waits_iff`).
-/
import KeyFigures.Proofs.Cache.Registration

namespace KeyFigures

namespace SharedCache

variable {ι : Type}

/-! ### The flights under way -/

/-- Who waits is not part of the routes. -/
theorem routes_map (flights : List (Flight ι)) (g : Flight ι → Flight ι)
    (hg : ∀ f, (g f).number = f.number ∧ (g f).key = f.key) :
    (flights.map g).map (fun f => (f.number, f.key)) =
      flights.map fun f => (f.number, f.key) := by
  rw [List.map_map]
  refine List.map_congr_left fun f _ => ?_
  rw [Function.comp_apply, (hg f).1, (hg f).2]

theorem routes_filter (s : SharedCache ι) (n : Nat) :
    (s.flights.filter (·.number != n)).map (fun f => (f.number, f.key)) =
      s.routes.filter (·.1 != n) := by
  rw [routes, List.filter_map]
  rfl

variable [DecidableEq ι]

theorem routes_leave (s : SharedCache ι) (caller : ι) : (s.leave caller).routes = s.routes :=
  routes_map _ _ fun _ => ⟨rfl, rfl⟩

/-- A landing ends its flight. -/
theorem routes_land (s : SharedCache ι) (n : Nat) (outcome : Attempt Result) :
    (s.step (.land n outcome)).1.routes = s.routes.filter (·.1 != n) := by
  unfold step
  dsimp only
  cases hf : s.flight? n with
  | none =>
    have hnone : ∀ f ∈ s.flights, f.number ≠ n := by
      simpa [flight?] using hf
    refine (List.filter_eq_self.mpr fun p hp => ?_).symm
    obtain ⟨f, hf, rfl⟩ := List.mem_map.mp hp
    simpa using hnone f hf
  | some f =>
    obtain ⟨-, rfl⟩ := mem_of_flight? hf
    exact s.routes_filter f.number

end SharedCache

namespace TracedCache

variable {ι : Type} [DecidableEq ι] {w : TracedCache ι}

open SharedCache (Event)

omit [DecidableEq ι] in
theorem Inv.flight?_of_mem (h : w.Inv) {f : Flight ι} (hf : f ∈ w.shared.flights) :
    w.shared.flight? f.number = some f := by
  refine find?_eq_some_of_nodup ?_ hf
  rw [← SharedCache.routes_map_fst]
  exact h.routes_nodup

/-- A flight is under way if it was before, or it starts and is registered. -/
theorem Inv.routes_step (h : w.Inv) {e : Event ι} {n : Nat} {key : CacheKey}
    (hroute : (n, key) ∈ (w.step e).1.shared.routes) :
    ((n, key) ∈ w.shared.routes ∧ ∀ x, e ≠ .land n x) ∨
      (n = w.shared.cache.misses ∧ (w.step e).1.shared.cache.flight? key = some n) := by
  cases e with
  | request caller k =>
    have hconsistent := (h.step (.request caller k)).consistent
    rcases w.step_request caller k with
      ⟨fault, -, heq⟩ | ⟨-, e, -, -, heq⟩ | ⟨-, m, -, heq⟩ | ⟨-, -, -, heq⟩
    · rw [heq] at hroute
      exact .inl ⟨hroute, by simp⟩
    · rw [heq] at hroute
      exact .inl ⟨hroute, by simp⟩
    · rw [heq] at hroute
      refine .inl ⟨?_, by simp⟩
      simp only [SharedCache.routes] at hroute
      rwa [SharedCache.routes_map] at hroute
      intro f
      split <;> exact ⟨rfl, rfl⟩
    · rw [heq] at hroute hconsistent ⊢
      simp only [SharedCache.routes, List.map_append, List.mem_append] at hroute
      rcases hroute with hroute | hroute
      · exact .inl ⟨hroute, by simp⟩
      · obtain ⟨rfl, rfl⟩ := Prod.mk.inj (List.mem_singleton.mp hroute)
        exact .inr ⟨rfl, hconsistent.flight?_eq_some (List.mem_append_right _ List.mem_cons_self)⟩
  | land m x =>
    rw [step_shared, SharedCache.routes_land] at hroute
    obtain ⟨hroute, hne⟩ := List.mem_filter.mp hroute
    refine .inl ⟨hroute, ?_⟩
    rintro y heq
    obtain ⟨rfl, -⟩ := Event.land.inj heq
    simp at hne
  | leave caller => exact .inl ⟨w.shared.routes_leave caller ▸ hroute, by simp⟩
  | evict k => exact .inl ⟨hroute, by simp⟩
  | invalidate entity year => exact .inl ⟨hroute, by simp⟩
  | clear => exact .inl ⟨hroute, by simp⟩
  | clock now => exact .inl ⟨hroute, by simp⟩

/-- A flight under way is registered, unless its key was dropped since it
    started. -/
theorem under_way_cases (limits : CacheLimits) (now : Except TimeFault Moment)
    (es : List (Event ι)) {n : Nat} {key : CacheKey}
    (hroute : (n, key) ∈ (reached limits now es : TracedCache ι).shared.routes) :
    (reached limits now es : TracedCache ι).shared.cache.flight? key = some n ∨
      ∃ before d after, es = before ++ Drop.event d :: after ∧ d.selects key = true ∧
        (n, key) ∈ (reached limits now before : TracedCache ι).shared.routes := by
  induction es using List.reverseRecOn with
  | nil => cases hroute
  | append_singleton es e ih =>
    have hw : Inv (reached limits now es) := reached_inv limits now es
    rw [reached_append, run_single] at hroute ⊢
    rcases hw.routes_step hroute with ⟨hold, hland⟩ | ⟨-, hreg⟩
    · rcases ih hold with hreg | ⟨before, d, after, rfl, hselects, hunder⟩
      · by_cases hdrop : ∃ d : Drop, e = d.event ∧ d.selects key = true
        · obtain ⟨d, rfl, hselects⟩ := hdrop
          exact .inr ⟨es, d, [], rfl, hselects, hold⟩
        · refine .inl (hw.registered_step hreg hland fun d hd => ?_)
          exact Bool.eq_false_iff.mpr fun hselects => hdrop ⟨d, hd, hselects⟩
      · exact .inr ⟨before, d, after ++ [e], by simp, hselects, hunder⟩
    · exact .inl hreg

theorem Inv.misses_step (h : w.Inv) (e : Event ι) :
    w.shared.cache.misses ≤ (w.step e).1.shared.cache.misses := by
  rw [← h.starts_length, ← (h.step e).starts_length]
  exact (w.starts_step e).length_le

/-- A flight under way that started before a run was under way all along. -/
theorem Inv.under_way_throughout (h : w.Inv) {es : List (Event ι)} {n : Nat} {key : CacheKey}
    (hstarted : n < w.shared.cache.misses) (hroute : (n, key) ∈ (w.run es).1.shared.routes) :
    (n, key) ∈ w.shared.routes ∧ ∀ x, .land n x ∉ es := by
  induction es generalizing w with
  | nil => exact ⟨hroute, by simp⟩
  | cons e es ih =>
    rw [run_cons] at hroute
    have hlater := Nat.lt_of_lt_of_le hstarted (h.misses_step e)
    obtain ⟨hstep, hrest⟩ := ih (h.step e) hlater hroute
    rcases h.routes_step hstep with ⟨hold, hland⟩ | ⟨rfl, -⟩
    · refine ⟨hold, fun x hmem => ?_⟩
      rcases List.mem_cons.mp hmem with heq | hmem
      · exact hland x heq.symm
      · exact hrest x hmem
    · exact absurd hstarted (Nat.lt_irrefl _)

/-! ### Who waits -/

/-- By an event a call boards a flight: it joins the flight or starts it. -/
def Boards (w : TracedCache ι) (e : Event ι) (x : Wait ι) : Prop :=
  e = .request x.caller x.key ∧ x.call = w.calls ∧
    (w.shared.lookup x.key = .ok (.joined x.flight) ∨
      w.shared.lookup x.key = .ok (.started x.flight))

variable {x : Wait ι}

omit [DecidableEq ι] in
theorem boards_request_iff {caller : ι} {key : CacheKey} :
    w.Boards (.request caller key) x ↔
      ∃ n, x = ⟨w.calls, caller, key, n⟩ ∧
        (w.shared.lookup key = .ok (.joined n) ∨ w.shared.lookup key = .ok (.started n)) := by
  constructor
  · rintro ⟨heq, hcall, hlookup⟩
    obtain ⟨rfl, rfl⟩ := Event.request.inj heq
    exact ⟨x.flight, by rw [← hcall], hlookup⟩
  · rintro ⟨n, rfl, hlookup⟩
    exact ⟨rfl, rfl, hlookup⟩

theorem mem_waits_request (w : TracedCache ι) (caller : ι) (key : CacheKey) :
    x ∈ (w.step (.request caller key)).1.waits ↔
      w.Boards (.request caller key) x ∨ x ∈ w.waits := by
  rw [boards_request_iff]
  unfold step
  dsimp only
  cases w.shared.lookup key with
  | error failure => simp
  | ok lookup =>
    cases lookup with
    | hit r => simp
    | joined n => simp [or_comm]
    | started n => simp [or_comm]

theorem Inv.mem_waits_land (h : w.Inv) (n : Nat) (outcome : Attempt Result) :
    x ∈ (w.step (.land n outcome)).1.waits ↔ x ∈ w.waits ∧ x.flight ≠ n := by
  unfold TracedCache.step
  dsimp only
  cases hf : w.shared.flight? n with
  | none =>
    refine ⟨fun hx => ⟨hx, ?_⟩, And.left⟩
    rintro rfl
    obtain ⟨f, hsome, -, -⟩ := SharedCache.flight?_of_route h.routes_nodup (h.waits x hx)
    rw [hf] at hsome
    cases hsome
  | some f => simp

/-- A call waits from when it boards until its flight lands or its caller gives
    up. -/
theorem Inv.mem_waits_step (h : w.Inv) {e : Event ι} :
    x ∈ (w.step e).1.waits ↔
      w.Boards e x ∨ x ∈ w.waits ∧ e ≠ .leave x.caller ∧ ∀ o, e ≠ .land x.flight o := by
  have hidle : ∀ {e : Event ι}, (∀ caller key, e ≠ .request caller key) → ¬ w.Boards e x :=
    fun hne hboards => hne _ _ hboards.1
  cases e with
  | request caller key => simp [mem_waits_request]
  | land n outcome =>
    rw [h.mem_waits_land, or_iff_right (hidle (by simp))]
    simp [eq_comm]
  | leave caller =>
    rw [or_iff_right (hidle (by simp))]
    show x ∈ w.waits.filter (·.caller ≠ caller) ↔ _
    simp [@eq_comm _ caller]
  | evict key =>
    rw [or_iff_right (hidle (by simp))]
    simp [TracedCache.step]
  | invalidate entity year =>
    rw [or_iff_right (hidle (by simp))]
    simp [TracedCache.step]
  | clear =>
    rw [or_iff_right (hidle (by simp))]
    simp [TracedCache.step]
  | clock now =>
    rw [or_iff_right (hidle (by simp))]
    simp [TracedCache.step]

/-- The calls that wait are those that boarded a flight which has not landed
    since, and whose callers have not given up. -/
theorem mem_waits_iff (limits : CacheLimits) (now : Except TimeFault Moment)
    (es : List (Event ι)) :
    x ∈ (reached limits now es : TracedCache ι).waits ↔
      ∃ before e after, es = before ++ e :: after ∧
        (reached limits now before : TracedCache ι).Boards e x ∧ .leave x.caller ∉ after ∧
        ∀ o, .land x.flight o ∉ after := by
  induction es using List.reverseRecOn with
  | nil => simp [reached, run, start]
  | append_singleton es e ih =>
    rw [reached_append, run_single, (reached_inv limits now es).mem_waits_step, ih]
    constructor
    · rintro (hboards | ⟨⟨before, e', after, rfl, hboards, hleave, hland⟩, hnleave, hnland⟩)
      · exact ⟨es, e, [], rfl, hboards, by simp, by simp⟩
      · refine ⟨before, e', after ++ [e], by simp, hboards, ?_, ?_⟩
        · simpa [hleave] using hnleave.symm
        · intro o
          simpa [hland o] using (hnland o).symm
    · rintro ⟨before, e', after, heq, hboards, hleave, hland⟩
      rcases List.eq_nil_or_concat' after with rfl | ⟨after, last, rfl⟩
      · obtain ⟨rfl, hlast⟩ := List.append_inj' heq rfl
        obtain rfl := List.singleton_inj.mp hlast
        exact .inl hboards
      · rw [← List.cons_append, ← List.append_assoc] at heq
        obtain ⟨rfl, hlast⟩ := List.append_inj' heq rfl
        obtain rfl := List.singleton_inj.mp hlast
        simp only [List.mem_append, List.mem_singleton, not_or] at hleave hland
        exact .inr ⟨⟨before, e', after, rfl, hboards, hleave.1, fun o => (hland o).1⟩,
          Ne.symm hleave.2, fun o => Ne.symm (hland o).2⟩

/-- For a flight that is under way nothing has to be said of its landing. -/
theorem mem_waits_iff_of_under_way (limits : CacheLimits) (now : Except TimeFault Moment)
    (es : List (Event ι)) {key : CacheKey}
    (hroute : (x.flight, key) ∈ (reached limits now es : TracedCache ι).shared.routes) :
    x ∈ (reached limits now es : TracedCache ι).waits ↔
      ∃ before e after, es = before ++ e :: after ∧
        (reached limits now before : TracedCache ι).Boards e x ∧ .leave x.caller ∉ after := by
  rw [mem_waits_iff]
  constructor
  · rintro ⟨before, e, after, heq, hboards, hleave, -⟩
    exact ⟨before, e, after, heq, hboards, hleave⟩
  · rintro ⟨before, e, after, rfl, hboards, hleave⟩
    refine ⟨before, e, after, rfl, hboards, hleave, ?_⟩
    have hbefore : Inv (reached limits now before) := reached_inv limits now before
    have hwaits := hbefore.mem_waits_step.mpr (.inl hboards)
    have hstarted := (hbefore.step e).lt_misses ((hbefore.step e).waits x hwaits)
    rw [reached_append, run_cons] at hroute
    exact ((hbefore.step e).under_way_throughout hstarted hroute).2

end TracedCache

end KeyFigures
