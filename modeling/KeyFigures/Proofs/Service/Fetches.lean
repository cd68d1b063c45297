/-
  KeyFigures/Proofs/Service/Fetches.lean
  ======================================
  **What the cache tells was held, or fetched in the meantime.**

  In a run of a service a task is told of its key that the clock shows no time,
  or what the cache holds, or what a computation has come to that fetches its
  ledger at that moment (`Service.Told`).  Where nothing is held of a key and no
  flight is under way for it, later tasks are told only what is fetched in the
  run (`Traced.told_fresh`).
-/
import KeyFigures.Proofs.Cache.Freshness
import KeyFigures.Proofs.Cache.Landing
import KeyFigures.Proofs.Service.Accounts

namespace KeyFigures

/-- What is computed counts for a key. -/
def Computation.IsFor (c : Computation) (key : CacheKey) : Prop :=
  CacheKey.ofValues c.entity c.year c.version (.text c.formula.key) = .ok key

/-- What a computation comes to with the answer of the source. -/
def Computation.comesTo (c : Computation) (answer : Attempt Ledger) : Attempt Result :=
  answer >>= fun ledger => c.formula.tree.result ledger.balances c.formula.kind

namespace Service

/-- At some moment of a run a computation fetches and is given that answer. -/
def Fetches (s : Service) (events : List Event) (c : Computation) (answer : Attempt Ledger) : Prop :=
  ∃ before e after, events = before ++ e :: after ∧ (s.run before).computesIn? e = some c ∧
    (s.run before).source.answer c.entity c.year c.version = answer

/-- At some moment of a run the cache holds that result of a key. -/
def Holds (s : Service) (events : List Event) (key : CacheKey) (r : Result) : Prop :=
  ∃ before after x, events = before ++ after ∧ x ∈ (s.run before).cache.cache.entries ∧
    x.key = key ∧ x.result = r

/-- What a task can be told of a key in a run. -/
inductive Told (s : Service) (events : List Event) (key : CacheKey) : Attempt Result → Prop where
  | timeless {fault : TimeFault} : Told s events key (.error (.time fault))
  | held {r : Result} (h : s.Holds events key r) : Told s events key (.ok r)
  | fetched {c : Computation} {answer : Attempt Ledger} (h : s.Fetches events c answer)
      (hkey : c.IsFor key) : Told s events key (c.comesTo answer)

variable {b : Books} {h : History} {w : TracedCache Nat} {s : Service} {events : List Event}

theorem Fetches.append {c : Computation} {answer : Attempt Ledger} (hf : s.Fetches events c answer)
    (more : List Event) : s.Fetches (events ++ more) c answer := by
  obtain ⟨before, e, after, rfl, hrest⟩ := hf
  exact ⟨before, e, after ++ more, by simp, hrest⟩

theorem fetches_last {e : Event} {c : Computation} (h : (s.run events).computesIn? e = some c) :
    s.Fetches (events ++ [e]) c ((s.run events).source.answer c.entity c.year c.version) :=
  ⟨events, e, [], rfl, h, rfl⟩

theorem Told.append {key : CacheKey} {x : Attempt Result} (ht : s.Told events key x)
    (more : List Event) : s.Told (events ++ more) key x := by
  cases ht with
  | timeless => exact .timeless
  | held hheld =>
    obtain ⟨before, after, y, rfl, hrest⟩ := hheld
    exact .held ⟨before, after ++ more, y, by simp, hrest⟩
  | fetched hf hkey => exact .fetched (hf.append more) hkey

/-- A failure is told when it is met. -/
theorem Told.of_error {key : CacheKey} {f : Failure} (ht : s.Told events key (.error f)) :
    (∃ fault, f = .time fault) ∨
      ∃ c answer, s.Fetches events c answer ∧ c.IsFor key ∧ .error f = c.comesTo answer := by
  generalize hx : (.error f : Attempt Result) = x at ht
  cases ht with
  | timeless => exact .inl ⟨_, Except.error.inj hx⟩
  | held => cases hx
  | fetched hf hkey => exact .inr ⟨_, _, hf, hkey, rfl⟩

/-! ### At one moment -/

section Moment

variable {e : Event}

theorem Traced.isFor {c : Computation} {key : CacheKey} (hw : s.Traced b h w)
    (hc : s.computesIn? e = some c) (hstart : (c.flight, key) ∈ w.starts) : c.IsFor key := by
  have hstarted := hw.computations c (mem_of_computesIn? hc)
  rw [hw.inv.start_unique hstart hstarted.start]
  exact hstarted.key_eq

/-- What is told at one moment. -/
theorem Traced.told_step {d : Delivery Nat} (hw : s.Traced b h w)
    (hd : d ∈ (w.run (s.cacheEvents e)).2) :
    (∃ fault, d.outcome = .error (.time fault)) ∨
    (∃ x ∈ s.cache.cache.entries, x.key = d.key ∧ d.outcome = .ok x.result) ∨
    ∃ c, s.computesIn? e = some c ∧ c.IsFor d.key ∧ d.outcome = s.outcome c := by
  rcases s.cacheEvents_cases e with ⟨c, hc, heq⟩ | hland
  · rw [heq, TracedCache.run_single] at hd
    obtain ⟨houtcome | hfault, hstart⟩ := hw.inv.land_told hd
    · exact .inr (.inr ⟨c, hc, hw.isFor hc hstart, houtcome⟩)
    · exact .inl hfault
  · rw [← hw.shared]
    exact ((TracedCache.recalls_run hland).told d hd).imp_right .inl

/-- Which flight lands at one moment. -/
theorem landings_step {p : Nat × Attempt Result} (hp : p ∈ (w.run (s.cacheEvents e)).1.landings) :
    p ∈ w.landings ∨ ∃ c, s.computesIn? e = some c ∧ p = (c.flight, s.outcome c) := by
  rcases s.cacheEvents_cases e with ⟨c, hc, heq⟩ | hland
  · rw [heq, TracedCache.run_single] at hp
    exact (TracedCache.landings_land hp).imp_right fun hlast => ⟨c, hc, hlast⟩
  · exact .inl ((TracedCache.recalls_run hland).landings ▸ hp)

/-- What the cache holds after one moment more. -/
theorem Traced.entries_step {y : CacheEntry} (hw : s.Traced b h w) (hquiet : s.journal.IsQuiet)
    (hy : y ∈ (s.step e).cache.cache.entries) :
    y ∈ s.cache.cache.entries ∨
      ∃ c, s.computesIn? e = some c ∧ c.IsFor y.key ∧ s.outcome c = .ok y.result := by
  rw [cache_step hquiet, ← hw.shared, ← TracedCache.run_shared] at hy
  rw [← hw.shared]
  rcases s.cacheEvents_cases e with ⟨c, hc, heq⟩ | hland
  · rw [heq, TracedCache.run_single] at hy
    rcases hw.inv.entries_land hy with hold | ⟨houtcome, hstart⟩
    · exact .inl hold
    · exact .inr ⟨c, hc, hw.isFor hc hstart, houtcome⟩
  · exact .inl ((TracedCache.recalls_run hland).entries hy)

end Moment

/-! ### In a run -/

/-- At every moment of a run there are accounts of the service. -/
theorem Accounted.moment (hs : s.Accounted b h) (hw : s.Traced b h w) (events : List Event) :
    ∃ b' h', (s.run events).Accounted b' h' ∧
      (s.run events).Traced b' h' (w.run (s.cacheTrace events)).1 := by
  have hwithin : b.Within ⟨fun _ _ _ => True, fun _ _ => True, b.first⟩ :=
    ⟨fun _ _ _ _ => trivial, fun _ _ _ => trivial, rfl⟩
  obtain ⟨h', -, hs', hw', -⟩ := (hs.widen hwithin).run (hw.widen hwithin)
    (fun c r (_ : s.TakesUp events c r) => trivial) fun _ _ => trivial
  exact ⟨_, h', hs', hw'⟩

section Run

variable (hs : s.Accounted b h) (hw : s.Traced b h w)

include hs hw

/-- What a task is told in a run. -/
theorem Accounted.told_run :
    ∀ d ∈ (w.run (s.cacheTrace events)).2, s.Told events d.key d.outcome := by
  induction events using List.reverseRecOn with
  | nil => exact List.forall_mem_nil _
  | append_singleton events e ih =>
    intro d hd
    rw [cacheTrace_concat, TracedCache.run_append] at hd
    rcases List.mem_append.mp hd with hd | hd
    · exact (ih d hd).append [e]
    · obtain ⟨b', h', -, hw'⟩ := hs.moment hw events
      rcases hw'.told_step hd with ⟨fault, heq⟩ | ⟨x, hx, hkey, heq⟩ | ⟨c, hc, hkey, heq⟩ <;> rw [heq]
      · exact .timeless
      · exact .held ⟨events, [e], x, rfl, hx, hkey, rfl⟩
      · exact .fetched (fetches_last hc) hkey

/-- What lands in a run is what was fetched. -/
theorem Accounted.landings_run {p : Nat × Attempt Result} :
    p ∈ (w.run (s.cacheTrace events)).1.landings → p ∈ w.landings ∨
      ∃ c answer, s.Fetches events c answer ∧ p = (c.flight, c.comesTo answer) ∧
        c.Started (w.run (s.cacheTrace events)).1 := by
  induction events using List.reverseRecOn with
  | nil => exact .inl
  | append_singleton events e ih =>
    intro hp
    rw [cacheTrace_concat, TracedCache.run_append] at hp ⊢
    obtain ⟨b', h', -, hw'⟩ := hs.moment hw events
    rcases landings_step hp with hold | ⟨c, hc, rfl⟩
    · rcases ih hold with hold | ⟨c, answer, hf, heq, hstarted⟩
      · exact .inl hold
      · exact .inr ⟨c, answer, hf.append [e], heq, hstarted.run _⟩
    · exact .inr ⟨c, _, fetches_last hc, rfl,
        (hw'.computations c (mem_of_computesIn? hc)).run _⟩

/-- What the cache holds after a run was held before, or was fetched. -/
theorem Accounted.entries_run {y : CacheEntry} :
    y ∈ (s.run events).cache.cache.entries → y ∈ s.cache.cache.entries ∨
      ∃ c answer, s.Fetches events c answer ∧ c.IsFor y.key ∧ c.comesTo answer = .ok y.result := by
  induction events using List.reverseRecOn with
  | nil => exact .inl
  | append_singleton events e ih =>
    intro hy
    rw [run_append] at hy
    obtain ⟨b', h', hs', hw'⟩ := hs.moment hw events
    rcases hw'.entries_step hs'.quiet hy with hold | ⟨c, hc, hkey, houtcome⟩
    · rcases ih hold with hold | ⟨c, answer, hf, hrest⟩
      · exact .inl hold
      · exact .inr ⟨c, answer, hf.append [e], hrest⟩
    · exact .inr ⟨c, _, fetches_last hc, hkey, houtcome⟩

/-- Where a key has neither an entry nor a flight, who asks later is told only
    what is fetched in the run. -/
theorem Accounted.told_fresh {d : Delivery Nat}
    (hnone : ∀ y ∈ s.cache.cache.entries, y.key ≠ d.key) (hflight : s.cache.cache.flight? d.key = none)
    (hd : d ∈ (w.run (s.cacheTrace events)).2) (hcaller : h.errands.length ≤ d.caller) :
    (∃ fault, d.outcome = .error (.time fault)) ∨
      ∃ c answer, s.Fetches events c answer ∧ c.IsFor d.key ∧ d.outcome = c.comesTo answer := by
  cases hx : d.outcome with
  | error f =>
    have htold := hs.told_run hw d hd
    rw [hx] at htold
    rcases htold.of_error with ⟨fault, rfl⟩ | hfetched
    · exact .inl ⟨fault, rfl⟩
    · exact .inr hfetched
  | ok r =>
    -- a result names the flight that brought it, and that one starts in the run
    obtain ⟨n, hn, hstart, hland⟩ := hw.inv.sourced_run hd r hx
    have hfresh : w.Fresh d.key w.shared.cache.misses w.calls := by
      rw [← hw.shared] at hnone hflight
      refine ⟨Nat.le_refl _, fun m hm => ?_, fun y hy _ hcall => ?_, fun y hy hkey => ?_⟩
      · exact absurd rfl (Cache.flight?_eq_none_iff.mp hflight _ hm)
      · exact absurd (hw.inv.called y hy) (Nat.not_lt.mpr hcall)
      · exact absurd hkey (hnone y hy)
    have hlater : w.Later h.errands.length w.calls :=
      ⟨Nat.le_refl _, fun y hy hle => absurd (hw.waits y hy).1 (Nat.not_lt.mpr hle)⟩
    have hnew := hfresh.run_delivery hd rfl (hlater.run_delivery d hd hcaller) n hn
    rcases hs.landings_run hw hland with hold | ⟨c, answer, hf, heq, hstarted⟩
    · have hlt := (hw.inv.landed _ hold).1
      rw [hw.inv.numbered, List.mem_range] at hlt
      exact absurd hlt (Nat.not_lt.mpr hnew)
    · obtain ⟨rfl, houtcome⟩ := Prod.mk.inj heq
      refine .inr ⟨c, answer, hf, ?_, houtcome⟩
      rw [Computation.IsFor, (hw.inv.run _).start_unique hstart hstarted.start]
      exact hstarted.key_eq

end Run

end Service

end KeyFigures
