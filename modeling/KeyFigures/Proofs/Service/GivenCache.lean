/-
  KeyFigures/Proofs/Service/GivenCache.lean
  =========================================
  **A service works on the cache it is given.**

  Services that were built over one cache share what it holds and what is under
  way in it (`Pool.OneCache`), and after a drop none of them answers a later call
  with what was computed before (`given_cache_is_shared`).

  There is one condition: the cache holds a result when the service is built
  over it.  A service that is given a cache without results puts it aside and
  takes one of its own (`not_given_cache_is_shared`).
-/
import KeyFigures.Proofs.Cache.Freshness
import KeyFigures.Proofs.Service.Pool
import KeyFigures.Proofs.Service.Unobservable

namespace KeyFigures

/-! ### What is told after a drop -/

/-- What a task was told of a key after a drop: no result of a dropped key was
    found out by a flight from before it. -/
def TracedCache.ToldAfter (w : TracedCache Nat) (d : Drop) (es : List (SharedCache.Event Nat))
    (key : CacheKey) (x : Attempt Result) : Prop :=
  ∃ t ∈ ((w.step d.event).1.run es).2, t.key = key ∧ t.outcome = x ∧
    ((w.step d.event).1.run es).1.Sourced t ∧
    (d.selects key = true → ∀ n ∈ t.flight, n ∉ w.starts.map Prod.fst)

/-- Who has waited for nothing before the drop asks after it. -/
theorem TracedCache.Inv.toldAfter {w : TracedCache Nat} (hw : w.Inv) {m : Nat}
    (hwaits : ∀ x ∈ w.waits, x.caller < m) {d : Drop} {es : List (SharedCache.Event Nat)}
    {t : Delivery Nat} (ht : t ∈ ((w.step d.event).1.run es).2) (hcaller : m ≤ t.caller) :
    w.ToldAfter d es t.key t.outcome := by
  refine ⟨t, ht, rfl, rfl, (hw.step d.event).sourced_run ht, fun hselects n hn => ?_⟩
  have hlater : (w.step d.event).1.Later m w.calls := by
    rw [TracedCache.step_drop]
    exact ⟨Nat.le_refl _, fun x hx hle => absurd (hwaits x hx) (Nat.not_lt.mpr hle)⟩
  have hcall := hlater.run_delivery t ht hcaller
  have hnew := (hw.fresh_drop hselects).run_delivery ht rfl hcall n hn
  rw [hw.numbered, List.mem_range]
  exact Nat.not_lt.mpr hnew

namespace Pool

variable {b : Books} {h : History} {w : TracedCache Nat} {p : Pool}

/-! ### What the cache is to the members -/

/-- What the cache of a pool is to its members, at a moment. -/
structure OneCache (p : Pool) : Prop where
  /-- A service that is built over the cache while it holds a result works on it. -/
  build : ∀ registry source settings now requestId, p.cache.cache.size ≠ 0 →
    (Service.start registry source settings (some p.cache) now requestId).cache = p.cache ∧
    (p.step (.build registry source settings now requestId)).members =
      p.members ++ [Service.start registry source settings (some p.cache) now requestId]
  /-- Who asks for what the cache holds is told it and computes nothing, whoever
      has put it there. -/
  hit : ∀ place s e n key x, p.members[place]? = some s →
    (p.enter s).cacheEvents e = [.request n key] → p.cache.get? key = .ok (some x) →
    (p.cache.run (p.cacheEvents (.member place e))).2 = [⟨n, .ok x.result⟩] ∧
    ((p.enter s).step e).computations ⊆ s.computations
  /-- Who asks for what is under way waits for it and computes nothing, whoever
      has started it. -/
  join : ∀ place s e n key f, p.members[place]? = some s →
    (p.enter s).cacheEvents e = [.request n key] → p.cache.get? key = .ok none →
    p.cache.cache.flight? key = some f.number → f ∈ p.cache.flights →
    { f with waiting := f.waiting ++ [n] } ∈ (p.step (.member place e)).cache.flights ∧
    ((p.enter s).step e).computations ⊆ s.computations
  /-- When a flight lands, the waiting tasks of the other members are told too. -/
  land : ∀ place s e c f other s' t, p.members[place]? = some s →
    (p.enter s).computesIn? e = some c → p.cache.flight? c.flight = some f →
    other ≠ place → p.members[other]? = some s' → t ∈ s'.tasks → t.number ∈ f.waiting →
    ∃ s'', (p.step (.member place e)).members[other]? = some s'' ∧
      Turn.deliver t.number (p.cache.arrival f ((p.enter s).outcome c)) ∈ s''.ready
  /-- A member computes only what is neither held nor under way; the flight is
      registered then. -/
  launch : ∀ place s e c, p.members[place]? = some s →
    c ∈ ((p.enter s).step e).computations → c ∈ s.computations ∨
      (p.cache.get? c.key = .ok none ∧ p.cache.cache.flight? c.key = none ∧
        (p.step (.member place e)).cache.cache.flight? c.key = some c.flight)
  /-- A flight stays registered until it lands or its key is dropped. -/
  keep : ∀ ev key n, p.cache.cache.flight? key = some n →
    (∀ x, .land n x ∉ p.cacheEvents ev) →
    (∀ d : Drop, d.event ∈ p.cacheEvents ev → d.selects key = false) →
    (p.step ev).cache.cache.flight? key = some n
  /-- What a member computes for a registered flight is put into the cache.  Only
      if the clock of the cache fails it is not, and then nobody is told it. -/
  store : ∀ place s e c r, p.members[place]? = some s →
    (p.enter s).computesIn? e = some c → (p.enter s).outcome c = .ok r →
    p.cache.cache.flight? c.key = some c.flight →
    (∃ x ∈ (p.step (.member place e)).cache.cache.entries, x.key = c.key ∧ x.result = r) ∨
      ∃ fault, p.cache.now = .error fault ∧
        ∀ a ∈ (p.cache.run (p.cacheEvents (.member place e))).2, a.outcome = .error (.time fault)

theorem cacheEvents_member {place : Nat} {s : Service} (hs : p.members[place]? = some s)
    (e : Service.Event) : p.cacheEvents (.member place e) = (p.enter s).cacheEvents e := by
  simp [cacheEvents, hs]

theorem Accounted.cache_step (hp : p.Accounted b h w) (ev : Event) :
    (p.step ev).cache = (p.cache.run (p.cacheEvents ev)).1 := by
  cases ev with
  | build registry source settings now requestId =>
    simp only [Pool.step]
    split <;> rfl
  | member place e =>
    cases hs : p.members[place]? with
    | none => simp [Pool.step, cacheEvents, hs, SharedCache.run]
    | some s =>
      rw [cacheEvents_member hs]
      simp only [Pool.step, hs]
      exact Service.cache_step (hp.members s (List.mem_of_getElem? hs)).quiet e
  | outside e =>
    by_cases hpermits : p.permits e <;> simp [Pool.step, cacheEvents, hpermits, SharedCache.run]

theorem build_of_size {registry : Registry} {source : LedgerSource} {settings : Settings}
    {now : Except TimeFault Moment} {requestId : Nat → String} (hsize : p.cache.cache.size ≠ 0) :
    (Service.start registry source settings (some p.cache) now requestId).cache = p.cache ∧
    (p.step (.build registry source settings now requestId)).members =
      p.members ++ [Service.start registry source settings (some p.cache) now requestId] := by
  have hof : ∀ own, Service.cacheOf (some p.cache) own = (p.cache, false) := by
    intro own
    unfold Service.cacheOf
    exact if_neg hsize
  have hstart : (Service.start registry source settings (some p.cache) now requestId).cache =
        p.cache ∧
      (Service.start registry source settings (some p.cache) now requestId).ownCache = false := by
    unfold Service.start
    rw [hof]
    exact ⟨rfl, rfl⟩
  refine ⟨hstart.1, ?_⟩
  simp only [Pool.step, hstart.2]
  rfl

/-- A member whose lookup is not met by a new flight computes nothing new. -/
theorem computations_subset {s : Service} {e : Service.Event} {n : Nat} {key : CacheKey}
    (hrequest : (p.enter s).cacheEvents e = [.request n key])
    (hmet : p.cache.get? key = .ok none → p.cache.cache.flight? key ≠ none) :
    ((p.enter s).step e).computations ⊆ s.computations := by
  intro c hc
  rcases Service.launches_of_mem_step hc with hold | hnew
  · exact hold
  · obtain ⟨m, hm⟩ := hnew.asked
    rw [hrequest] at hm
    obtain ⟨-, rfl⟩ : n = m ∧ key = c.key := by simpa using hm
    exact absurd hnew.flight (hmet hnew.entry)

theorem land_member {place other : Nat} {s s' : Service} {e : Service.Event}
    {c : Computation} {f : Flight Nat} {t : Task} (hs : p.members[place]? = some s)
    (hcomputes : (p.enter s).computesIn? e = some c) (hf : p.cache.flight? c.flight = some f)
    (hother : other ≠ place) (hs' : p.members[other]? = some s') (ht : t ∈ s'.tasks)
    (hwaits : t.number ∈ f.waiting) :
    ∃ s'', (p.step (.member place e)).members[other]? = some s'' ∧
      Turn.deliver t.number (p.cache.arrival f ((p.enter s).outcome c)) ∈ s''.ready := by
  have hanswers : (p.cache.run ((p.enter s).cacheEvents e)).2 =
      f.waiting.map fun n => ⟨n, p.cache.arrival f ((p.enter s).outcome c)⟩ := by
    rw [Service.cacheEvents_of_computesIn? hcomputes]
    simp [SharedCache.run, SharedCache.step, Service.landing, hf]
  refine ⟨s'.hear (p.cache.run ((p.enter s).cacheEvents e)).2, ?_, ?_⟩
  · simp only [Pool.step, hs, tell]
    rw [List.getElem?_set_ne hother.symm, List.getElem?_map, hs']
    rfl
  · have hfound : (s'.task? t.number).isSome := by
      unfold Service.task?
      rw [List.find?_isSome]
      exact ⟨t, ht, by simp⟩
    refine List.mem_append_right _ (List.mem_map.mpr ⟨⟨t.number, _⟩, ?_, rfl⟩)
    rw [hanswers]
    exact List.mem_filter.mpr ⟨List.mem_map.mpr ⟨t.number, hwaits, rfl⟩, hfound⟩

theorem Accounted.store_member {place : Nat} {s : Service} {e : Service.Event} {c : Computation}
    {r : Result} (hp : p.Accounted b h w) (hs : p.members[place]? = some s)
    (hcomputes : (p.enter s).computesIn? e = some c) (hr : (p.enter s).outcome c = .ok r)
    (hreg : p.cache.cache.flight? c.key = some c.flight) :
    (∃ x ∈ (p.step (.member place e)).cache.cache.entries, x.key = c.key ∧ x.result = r) ∨
      ∃ fault, p.cache.now = .error fault ∧
        ∀ a ∈ (p.cache.run (p.cacheEvents (.member place e))).2,
          a.outcome = .error (.time fault) := by
  rw [hp.cache_step, cacheEvents_member hs, Service.cacheEvents_of_computesIn? hcomputes]
  have hroute := hp.inv.registered (c.key, c.flight)
    (by rw [hp.shared]; exact Cache.mem_of_flight? hreg)
  obtain ⟨f, hf, hnumber, hkey⟩ := SharedCache.flight?_of_route hp.inv.routes_nodup hroute
  rw [hp.shared] at hf
  have hregistered : p.cache.cache.isRegistered f.key f.number = true := by
    rw [hkey, hnumber]
    exact Cache.isRegistered_iff.mpr hreg
  cases hnow : p.cache.now with
  | error fault =>
    refine .inr ⟨fault, rfl, ?_⟩
    have harrival : p.cache.arrival f (.ok r) = .error (.time fault) := by
      unfold SharedCache.arrival
      rw [hnow]
      exact if_pos hregistered
    intro a ha
    simp only [SharedCache.run, SharedCache.step, Service.landing, hf, hr, harrival] at ha
    obtain ⟨n, -, rfl⟩ := List.mem_map.mp (by simpa using ha)
    rfl
  | ok now =>
    refine .inl ⟨⟨c.key, r, p.cache.time⟩, ?_, rfl, rfl⟩
    have harrival : p.cache.arrival f (.ok r) = .ok r := by
      unfold SharedCache.arrival
      rw [hnow]
    have hland : (p.cache.cache.land p.cache.time f.key f.number (.ok r)).1 =
        (p.cache.cache.refresh ⟨f.key, r, p.cache.time⟩).trim.detach f.key := by
      simp [Cache.land, hregistered, Cache.store]
    simp only [SharedCache.run, SharedCache.step, Service.landing, hf, hr, harrival,
      SharedCache.land, hland]
    rw [hkey]
    exact Cache.mem_store _ _

theorem Accounted.oneCache (hp : p.Accounted b h w) : p.OneCache where
  build _ _ _ _ _ hsize := build_of_size hsize
  hit place s e n key x hs hrequest hget := by
    refine ⟨?_, computations_subset hrequest ?_⟩
    · rw [cacheEvents_member hs, hrequest]
      exact (List.append_nil _).trans (SharedCache.step_hit hget n)
    · intro hnone
      rw [hget] at hnone
      cases hnone
  join place s e n key f hs hrequest hget hflight hf := by
    refine ⟨?_, computations_subset hrequest ?_⟩
    · rw [hp.cache_step, cacheEvents_member hs, hrequest, Service.run_single,
        (SharedCache.step_join hget hflight n).2]
      exact List.mem_map.mpr ⟨f, hf, if_pos rfl⟩
    · intro _ hnone
      rw [hflight] at hnone
      cases hnone
  land _ _ _ _ _ _ _ _ := land_member
  launch place s e c hs hc := by
    rcases Service.launches_of_mem_step hc with
      hold | hnew
    · exact .inl hold
    · refine .inr ⟨hnew.entry, hnew.flight, ?_⟩
      obtain ⟨n, hn⟩ := hnew.asked
      rw [hp.cache_step, cacheEvents_member hs, hn, hnew.number]
      exact SharedCache.step_start hnew.entry hnew.flight n
  keep ev key n hreg hland hdrop := by
    rw [hp.cache_step, ← hp.shared, ← TracedCache.run_shared]
    exact hp.inv.registered_run (hp.shared ▸ hreg) hland hdrop
  store _ _ _ _ _ := hp.store_member

/-! ### Calls -/

/-- The calls that are ready were made to members. -/
theorem made_of_ready {events : List Event} (hnone : p.members = []) {s : Service}
    (hs : s ∈ (p.run events).members) {c : Call} (hc : c ∈ s.calls) :
    ∃ place, .member place (.call c) ∈ events := by
  induction events using List.reverseRecOn generalizing s c with
  | nil =>
    rw [show (p.run []).members = [] from hnone] at hs
    cases hs
  | append_singleton events e ih =>
    have hbefore : ∀ s ∈ (p.run events).members, ∀ c ∈ s.calls,
        ∃ place, .member place (.call c) ∈ events ++ [e] := by
      intro s hs c hc
      obtain ⟨place, hplace⟩ := ih hs hc
      exact ⟨place, List.mem_append_left _ hplace⟩
    have hhear : ∀ (s : Service) answers, (s.hear answers).calls = s.calls := by
      intro s answers
      refine (Service.Keeps.enqueue fun turn hturn => ?_).calls
      obtain ⟨a, -, rfl⟩ := List.mem_map.mp hturn
      rfl
    rw [run_append] at hs
    change s ∈ ((p.run events).step e).members at hs
    cases e with
    | build registry source settings now requestId =>
      simp only [Pool.step] at hs
      split at hs
      · exact hbefore s hs c hc
      · rcases List.mem_append.mp hs with hs | hs
        · exact hbefore s hs c hc
        · obtain rfl := List.mem_singleton.mp hs
          cases hc
    | member place e =>
      simp only [Pool.step] at hs
      split at hs
      · exact hbefore s hs c hc
      · rename_i s₀ hs₀
        rcases List.mem_or_eq_of_mem_set hs with hold | rfl
        · obtain ⟨s₁, hs₁, rfl⟩ := List.mem_map.mp hold
          exact hbefore s₁ hs₁ c (hhear s₁ _ ▸ hc)
        · rcases List.mem_append.mp ((Service.calls_step e).subset hc) with hc | hc
          · exact hbefore s₀ (List.mem_of_getElem? hs₀) c hc
          · cases e with
            | call c' =>
              obtain rfl : c = c' := by simpa [Service.Event.call?] using hc
              exact ⟨place, List.mem_append_right _ (List.mem_singleton_self _)⟩
            | _ => cases hc
    | outside e =>
      simp only [Pool.step] at hs
      split at hs
      · obtain ⟨s₁, hs₁, rfl⟩ := List.mem_map.mp hs
        exact hbefore s₁ hs₁ c (hhear s₁ _ ▸ hc)
      · exact hbefore s hs c hc

/-- A call that is taken up was made to a member. -/
theorem TakesUp.made {events : List Event} {c : Call} {r : Registry} (h : p.TakesUp events c r)
    (hnone : p.members = []) : ∃ place, .member place (.call c) ∈ events := by
  obtain ⟨before, i, place, after, s, rfl, hs, hready, -⟩ := h
  obtain ⟨place, hplace⟩ := made_of_ready hnone (List.mem_of_getElem? hs)
    (List.mem_filterMap.mpr ⟨.call c, List.mem_of_getElem? hready, rfl⟩)
  exact ⟨place, List.mem_append_left _ hplace⟩

theorem TakesUp.append {before : List Event} {c : Call} {r : Registry}
    (h : p.TakesUp before c r) (after : List Event) : p.TakesUp (before ++ after) c r := by
  obtain ⟨before', i, place, after', s, rfl, hs, hready, hr⟩ := h
  exact ⟨before', i, place, after' ++ after, s, by simp, hs, hready, hr⟩

theorem TakesUp.after {before after : List Event} {c : Call} {r : Registry}
    (h : (p.run before).TakesUp after c r) : p.TakesUp (before ++ after) c r := by
  obtain ⟨before', i, place, after', s, rfl, hs, hready, hr⟩ := h
  exact ⟨before ++ before', i, place, after', s, by simp, by rw [run_append]; exact hs, hready, hr⟩

/-! ### From the start on -/

/-- What those who are no tasks are there for does not matter. -/
def outsiders (first : Nat) : History :=
  ⟨List.replicate first ⟨.caller "" [], default, .null, .figure (.single .null .null)⟩, []⟩

theorem outsiders_length (first : Nat) : (outsiders first).errands.length = first :=
  List.length_replicate

theorem outsiders_accounted : (outsiders b.first).Accounted b where
  first := (outsiders_length b.first).ge
  owners n a hn ha := by
    have hlt := (List.getElem?_eq_some_iff.mp ha).1
    rw [outsiders_length] at hlt
    exact absurd hlt (Nat.not_lt.mpr hn)

/-- A pool without members has nothing to account for. -/
theorem accounted_ofCache (hw : w.Inv) (hwaits : w.WaitedFor b (outsiders b.first)) :
    (ofCache w.shared b.first).Accounted b (outsiders b.first) w where
  first := rfl
  inv := hw
  shared := rfl
  waits := hwaits
  computations _ hs := absurd hs List.not_mem_nil
  history := outsiders_accounted
  next := (outsiders_length b.first).symm
  members _ hs := absurd hs List.not_mem_nil

/-- What a run of the cache alone leaves under way is waited for from outside. -/
theorem waitedFor_reached {limits : CacheLimits} {now : Except TimeFault Moment}
    {es : List (SharedCache.Event Nat)} (hes : ∀ n key, .request n key ∈ es → n < b.first) :
    (TracedCache.reached limits now es).WaitedFor b (outsiders b.first) := by
  have hstart : (TracedCache.start limits now : TracedCache Nat).WaitedFor b
      (outsiders b.first) := nofun
  refine (hstart.run fun n key hmem => ?_).1
  have hlt := hes n key hmem
  rw [← outsiders_length b.first] at hlt
  refine ⟨hlt, fun hle => absurd (hes n key hmem) (Nat.not_lt.mpr hle)⟩

theorem Accounted.widen {b' : Books} (hp : p.Accounted b h w) (hb : b.Within b') :
    p.Accounted b' h w :=
  { hp with
    first := hb.first ▸ hp.first
    waits := fun x hx => (hp.waits x hx).widen hb
    history := hp.history.widen hb
    members := fun s hs => (hp.members s hs).widen hb }

/-! ### After a drop -/

theorem permits_drop (d : Drop) : p.permits d.event = true := by
  cases d <;> rfl

/-- The answers to later callers come from what was told after the drop. -/
theorem Accounted.comesFrom_after {taken taken' : Call → Registry → Prop}
    {told : List (Delivery Nat)} {first : Nat} {d : Drop} {after : List Event} {s : Service}
    {e : Ending} (hp : p.Accounted (.ofDeliveries told taken first) h w)
    (hold : ∀ t ∈ told, (Books.ofDeliveries told taken first).Asks h t.caller t.key)
    (htaken : ∀ c r, taken c r → taken' c r)
    (hcall : ∀ c r, p.TakesUp (.outside d.event :: after) c r → taken' c r)
    (hs : s ∈ ((p.step (.outside d.event)).run after).members) (he : e ∈ s.endings)
    (hcaller : ∀ c r, taken c r → c.caller ≠ e.caller) :
    e.ComesFrom (w.ToldAfter d ((p.step (.outside d.event)).cacheTrace after)) taken' := by
  have htrace : p.cacheTrace (.outside d.event :: after) =
      d.event :: (p.step (.outside d.event)).cacheTrace after := by
    simp only [cacheTrace, cacheEvents, permits_drop, if_true]
    rfl
  obtain ⟨h', hg, hp', -⟩ := (hp.widen (Books.ofDeliveries_within htaken)).run hcall
    fun t ht => ⟨t, List.mem_append_right told ht, rfl, rfl, rfl⟩
  refine (((hp'.members s hs).endings e he).comesFrom_since hg hp.history
    (fun t ht => (hold t ht).1) hcaller).mono ?_ fun _ _ htaken => htaken
  rintro key x ⟨t, ht, hm, rfl, rfl⟩
  rw [htrace, TracedCache.run_cons, TracedCache.step_drop] at ht
  refine hp.inv.toldAfter (fun y hy => (hp.waits y hy).1) ?_ hm
  rw [TracedCache.step_drop]
  exact ht

/-- **A service works on the cache it is given.**  Take a cache in any state that
    it can get into, services that are built over it at any time, and whatever
    they and others do.  The cache holds one run of it all, and the services
    share its entries and its flights, and put into it what they compute.  Every
    answer has come about from what the cache told; and after a drop of keys by
    somebody, the answer to a caller who had not called before comes from
    nothing that was found out about these keys by a flight from before.

    A service that is given a cache without results does not count: it has put
    the cache aside. -/
theorem given_cache_is_shared (limits : CacheLimits) (now : Except TimeFault Moment)
    (es : List (SharedCache.Event Nat)) (first : Nat)
    (hes : ∀ n key, .request n key ∈ es → n < first) (before : List Event) :
    let w₀ := TracedCache.reached limits now es
    let p₀ := ofCache w₀.shared first
    let p := p₀.run before
    let told := w₀.run (p₀.cacheTrace before)
    p.cache = ((SharedCache.start limits now).run (es ++ p₀.cacheTrace before)).1 ∧
      told.1.shared = p.cache ∧ p.OneCache ∧
      (∀ s ∈ p.members, ∀ e ∈ s.endings, e.ComesFrom
        (fun key x => ∃ t ∈ told.2, t.key = key ∧ t.outcome = x ∧ told.1.Sourced t)
        (p₀.TakesUp before)) ∧
      ∀ (d : Drop) (after : List Event),
        let dropped := p.step (.outside d.event)
        ∀ s ∈ (dropped.run after).members, ∀ e ∈ s.endings,
          (∀ place c, .member place (.call c) ∈ before → c.caller ≠ e.caller) →
          e.ComesFrom (told.1.ToldAfter d (dropped.cacheTrace after))
            (p₀.TakesUp (before ++ .outside d.event :: after)) := by
  intro w₀ p₀ p told
  have hw₀ : w₀.Inv := TracedCache.reached_inv limits now es
  obtain ⟨h, -, hp, hasks⟩ := (accounted_ofCache (b := .ofDeliveries told.2 (p₀.TakesUp before) first) hw₀
    (waitedFor_reached hes)).run (fun c r (htaken : p₀.TakesUp before c r) => htaken)
    fun d hd => ⟨d, hd, rfl, rfl, rfl⟩
  refine ⟨?_, hp.shared, hp.oneCache, fun s hs e he => ?_, ?_⟩
  · have hreached := TracedCache.reached_shared limits now (es ++ p₀.cacheTrace before)
    rw [TracedCache.reached_append] at hreached
    exact hp.shared.symm.trans hreached
  · refine ((hp.members s hs).endings e he).comesFrom.mono ?_ fun _ _ htaken => htaken
    rintro key x ⟨m, -, t, ht, -, hkey, hx⟩
    exact ⟨t, ht, hkey, hx, hw₀.sourced_run ht⟩
  · intro d after dropped s hs e he hcaller
    refine hp.comesFrom_after hasks (fun _ _ (htaken : p₀.TakesUp before _ _) => htaken.append _)
      (fun _ _ => TakesUp.after) hs he fun c r htaken => ?_
    obtain ⟨place, hmade⟩ := htaken.made rfl
    exact hcaller place c hmade

/-- A service that is built over a cache with one result works on it. -/
theorem given_cache_is_shared_filled :
    let key : CacheKey := ⟨.text "A", .int 2024, .null, .text "f"⟩
    let es : List (SharedCache.Event Nat) := [.request 0 key, .land 0 (.ok (.missing .amount))]
    let p₀ := ofCache (TracedCache.reached {} (.ok default) es).shared 1
    let p := p₀.run [.build Service.small.registry Service.small.source ⟨.int 1, 1, none, none, "kr", true⟩
      (.ok default) Nat.repr]
    (∀ n key, .request n key ∈ es → n < 1) ∧ p.cache.cache.size = 1 ∧ p.members.length = 1 ∧
      p.OneCache := by
  intro key es p₀ p
  have hes : ∀ n key, .request n key ∈ es → n < 1 := by
    intro n k hmem
    have hn : n = 0 ∧ k = key := by simpa [es] using hmem
    exact hn.1 ▸ Nat.one_pos
  exact ⟨hes, rfl, rfl, (given_cache_is_shared {} (.ok default) es 1 hes _).2.2.1⟩

end Pool

namespace Service

/-- A cache without results that is to keep results for ten seconds. -/
def brief : SharedCache Nat :=
  .start (.ofBounds none (some 10000000)) (.ok ⟨0, none⟩)

/-- The small service, given that cache. -/
def given : Service :=
  start small.registry small.source ⟨.int 1, 1, none, none, "kr", true⟩ (some brief)
    (.ok ⟨0, none⟩) Nat.repr

/-- The same figure is asked for again a minute after the first answer. -/
def askedLater : List Event :=
  firstCall (.text "1.5") ++
    (.clock (.ok ⟨60000000, none⟩) :: [.call (asking "b" (.text "1.5")), .take 0])

/-- A service puts a cache aside that has no results yet: what it computes is not
    stored there, and though the cache keeps results for ten seconds only, a
    minute later the old result is told once more without a computation. -/
theorem not_given_cache_is_shared :
    given.ownCache = true ∧ brief.cache.size = 0 ∧
      (given.run (firstCall (.text "1.5"))).cache.cache.size = 1 ∧
      (given.run (firstCall (.text "1.5"))).aside.map (·.cache.size) = some 0 ∧
      (given.run askedLater).endings.map (·.caller) = ["a", "b"] ∧
      (given.run askedLater).fetches = 1 := by
  obtain ⟨f, hfe⟩ : ∃ f, f = numberFormula (.finite false 15 (-1)) (.finite false 15 (-1)) := ⟨_, rfl⟩
  have hf (caller : String) : small.registry.prepare (asking caller (.text "1.5")) = .ok (f, asked) :=
    hfe ▸ prepare_asking caller (by cbv) (by decide +kernel)
  have hfirst : given.run (firstCall (.text "1.5")) =
      (given.begun (asking "a" (.text "1.5")) f asked).run [.take 0, .take 0, .take 0] := by
    rw [← run_call_take (s := given) rfl (hf "a")]
    rfl
  obtain ⟨s, hs⟩ : ∃ s, s = (given.run (firstCall (.text "1.5"))).step (.clock (.ok ⟨60000000, none⟩)) :=
    ⟨_, rfl⟩
  have hidle : s.ready = [] := by
    rw [hs, hfirst, hfe]
    exact List.length_eq_zero_iff.mp (by decide +kernel)
  have hregistry : s.registry = small.registry := by
    rw [hs, registry_step (by simp)]
    exact run_keeps registry (by simp [firstCall, registry_step])
  have hagain : given.run askedLater = s.begun (asking "b" (.text "1.5")) f asked := by
    rw [askedLater, run_append, ← run_call_take hidle (hregistry ▸ hf "b"), hs]
    rfl
  refine ⟨rfl, rfl, ?_, ?_, ?_, ?_⟩
  · rw [hfirst, hfe]
    decide +kernel
  · rw [hfirst, hfe]
    decide +kernel
  · rw [hagain, hs, hfirst, hfe]
    decide +kernel
  · rw [hagain, hs, hfirst, hfe]
    decide +kernel

end Service

end KeyFigures
