/-
  KeyFigures/Proofs/Cache/GivingUp.lean
  =====================================
  **Giving up does not matter to others.**

  Two runs go side by side: in one of them some callers give up while they wait,
  in the other they stay and all else is the same.  `Alike` relates the states
  that they reach.  The caches, the clocks and the flights under way are the same,
  and of the calls that wait in the run of the stayers those that were given up
  are missing in the other.

  Every event keeps states alike and tells the same calls the same, but for those
  that were given up (`Alike.step`), and a caller that gives up only adds to these
  (`Alike.leave`).  So a flight goes on whoever waits for it, and what it comes to
  is kept unless its key is dropped meanwhile (`under_way_cases`).
-/
import KeyFigures.Proofs.Cache.UnderWay

namespace KeyFigures

namespace SharedCache

variable {ι : Type}

/-- Whether an event is that one of some callers gives up. -/
def Event.isLeaveOf (quit : ι → Bool) : Event ι → Bool
  | .leave caller => quit caller
  | .request .. | .land .. | .evict _ | .invalidate .. | .clear | .clock _ => false

/-- A run in which some callers do not give up. -/
def staying (quit : ι → Bool) (es : List (Event ι)) : List (Event ι) :=
  es.filter fun e => !e.isLeaveOf quit

theorem eq_leave {quit : ι → Bool} {e : Event ι} (h : e.isLeaveOf quit = true) :
    ∃ caller, e = .leave caller ∧ quit caller = true := by
  cases e with
  | leave caller => exact ⟨caller, rfl, h⟩
  | request caller key => cases h
  | land n outcome => cases h
  | evict key => cases h
  | invalidate entity year => cases h
  | clear => cases h
  | clock now => cases h

variable {s s' : SharedCache ι}

/-- Two shared caches that differ at most in who waits. -/
structure SameCourse (s s' : SharedCache ι) : Prop where
  cache : s'.cache = s.cache
  now : s'.now = s.now
  routes : s'.routes = s.routes

theorem SameCourse.time (h : SameCourse s s') : s'.time = s.time := by
  rw [SharedCache.time, SharedCache.time, h.now]

theorem SameCourse.blocked? (h : SameCourse s s') (key : CacheKey) :
    s'.blocked? key = s.blocked? key := by
  rw [SharedCache.blocked?, SharedCache.blocked?, h.now, h.cache]

theorem SameCourse.lookup (h : SameCourse s s') (key : CacheKey) :
    s'.lookup key = s.lookup key := by
  rw [SharedCache.lookup, SharedCache.lookup, h.blocked?, h.cache, h.time]

/-- The flight of a number, but for who waits for it. -/
theorem flight?_route (s : SharedCache ι) (n : Nat) :
    (s.flight? n).map (fun f => (f.number, f.key)) = s.routes.find? (·.1 == n) := by
  rw [flight?, routes, List.find?_map]
  rfl

theorem SameCourse.flight?_none (h : SameCourse s s') {n : Nat} (hf : s.flight? n = none) :
    s'.flight? n = none := by
  have hroute := s'.flight?_route n
  rw [h.routes, ← flight?_route, hf] at hroute
  exact Option.map_eq_none_iff.mp hroute

theorem SameCourse.flight?_some (h : SameCourse s s') {n : Nat} {f : Flight ι}
    (hf : s.flight? n = some f) :
    ∃ f', s'.flight? n = some f' ∧ f'.number = f.number ∧ f'.key = f.key := by
  have hroute := s'.flight?_route n
  rw [h.routes, ← flight?_route, hf] at hroute
  obtain ⟨f', hf', heq⟩ := Option.map_eq_some_iff.mp hroute
  exact ⟨f', hf', Prod.mk.inj heq⟩

theorem SameCourse.arrival (h : SameCourse s s') {f f' : Flight ι} (hnumber : f'.number = f.number)
    (hkey : f'.key = f.key) (outcome : Attempt Result) :
    s'.arrival f' outcome = s.arrival f outcome := by
  unfold SharedCache.arrival
  rw [h.now, h.cache, hnumber, hkey]

/-- A flight lands in the same way whoever waits for it. -/
theorem SameCourse.land (h : SameCourse s s') {f f' : Flight ι} (hnumber : f'.number = f.number)
    (hkey : f'.key = f.key) (outcome : Attempt Result) :
    SameCourse (s.land f outcome).1 (s'.land f' outcome).1 ∧
      (s'.land f' outcome).2 = (s.land f outcome).2 := by
  unfold SharedCache.land
  rw [h.time, h.cache, hnumber, hkey]
  refine ⟨⟨rfl, h.now, ?_⟩, rfl⟩
  show (s'.flights.filter _).map _ = (s.flights.filter _).map _
  rw [routes_filter, routes_filter, h.routes]

theorem SameCourse.request (h : SameCourse s s') (caller : ι) (key : CacheKey) :
    SameCourse (s.request caller key).1 (s'.request caller key).1 := by
  have hboard : ∀ (n : Nat) (f : Flight ι),
      (if f.number = n then { f with waiting := f.waiting ++ [caller] } else f).number =
        f.number ∧
      (if f.number = n then { f with waiting := f.waiting ++ [caller] } else f).key = f.key := by
    intro n f
    split <;> exact ⟨rfl, rfl⟩
  have hroutes : s'.flights.map (fun f => (f.number, f.key)) =
      s.flights.map fun f => (f.number, f.key) := h.routes
  unfold SharedCache.request
  rw [h.time, h.cache]
  rcases s.cache.request s.time key with ⟨c, lookup⟩
  cases lookup with
  | hit r => exact ⟨rfl, h.now, h.routes⟩
  | joined n =>
    refine ⟨rfl, h.now, ?_⟩
    simp only [SharedCache.routes]
    rw [routes_map _ _ (hboard n), routes_map _ _ (hboard n), hroutes]
  | started n =>
    refine ⟨rfl, h.now, ?_⟩
    simp only [SharedCache.routes]
    rw [List.map_append, List.map_append, hroutes]

variable [DecidableEq ι]

/-- Who gives up leaves the flight on its way. -/
theorem SameCourse.leave (h : SameCourse s s') (caller : ι) : SameCourse (s.leave caller) s' where
  cache := h.cache
  now := h.now
  routes := h.routes.trans (s.routes_leave caller).symm

theorem step_request_of_unblocked {key : CacheKey} (h : s.blocked? key = none) (caller : ι) :
    (s.step (.request caller key)).1 = (s.request caller key).1 := by
  unfold step
  dsimp only
  rw [h]
  dsimp only
  split <;> rename_i heq <;> rw [heq]

theorem SameCourse.step (h : SameCourse s s') (e : Event ι) :
    SameCourse (s.step e).1 (s'.step e).1 := by
  cases e with
  | request caller key =>
    have hblocked := h.blocked? key
    cases hb : s.blocked? key with
    | some fault =>
      rw [hb] at hblocked
      simp only [SharedCache.step, hb, hblocked]
      exact h
    | none =>
      rw [hb] at hblocked
      rw [step_request_of_unblocked hb, step_request_of_unblocked hblocked]
      exact h.request caller key
  | land n outcome =>
    unfold SharedCache.step
    dsimp only
    cases hf : s.flight? n with
    | none =>
      rw [h.flight?_none hf]
      exact h
    | some f =>
      obtain ⟨f', hf', hnumber, hkey⟩ := h.flight?_some hf
      rw [hf']
      dsimp only
      rw [h.arrival hnumber hkey]
      exact (h.land hnumber hkey _).1
  | leave caller =>
    refine ⟨h.cache, h.now, ?_⟩
    show (s'.leave caller).routes = (s.leave caller).routes
    rw [routes_leave, routes_leave, h.routes]
  | evict key => exact ⟨by simp only [SharedCache.step, h.cache], h.now, h.routes⟩
  | invalidate entity year => exact ⟨by simp only [SharedCache.step, h.cache], h.now, h.routes⟩
  | clear => exact ⟨by simp only [SharedCache.step, h.cache], h.now, h.routes⟩
  | clock now => exact ⟨h.cache, rfl, h.routes⟩

end SharedCache

namespace TracedCache

variable {ι : Type} [DecidableEq ι]

open SharedCache (Event SameCourse staying)

/-! ### Side by side -/

/-- The calls that an event gives up, for callers of some set. -/
def quits (quit : ι → Bool) (w : TracedCache ι) : Event ι → List Nat
  | .leave caller =>
    if quit caller then (w.waits.filter (·.caller = caller)).map (·.call) else []
  | .request .. | .land .. | .evict _ | .invalidate .. | .clear | .clock _ => []

/-- The calls that a run gives up, for callers of some set. -/
def gaveUp (quit : ι → Bool) (w : TracedCache ι) : List (Event ι) → List Nat
  | [] => []
  | e :: rest => w.quits quit e ++ (w.step e).1.gaveUp quit rest

theorem quits_eq_nil {quit : ι → Bool} {w : TracedCache ι} {e : Event ι}
    (h : e.isLeaveOf quit = false) : w.quits quit e = [] := by
  cases e with
  | leave caller => exact if_neg (Bool.eq_false_iff.mp h)
  | request caller key => rfl
  | land n outcome => rfl
  | evict key => rfl
  | invalidate entity year => rfl
  | clear => rfl
  | clock now => rfl

/-- The calls that wait in a run, and those that wait where the callers of some
    set stayed: those that were given up are missing. -/
structure StillWaiting (quit : ι → Bool) (gone : List Nat) (calls : Nat)
    (waits waits' : List (Wait ι)) : Prop where
  kept : waits = waits'.filter (·.call ∉ gone)
  quitters : ∀ x ∈ waits', x.call ∈ gone → quit x.caller = true
  past : ∀ n ∈ gone, n < calls
  called : ∀ x ∈ waits', x.call < calls
  nodup : (waits'.map (·.call)).Nodup

section

omit [DecidableEq ι]

variable {quit : ι → Bool} {gone : List Nat} {calls : Nat} {waits waits' : List (Wait ι)}

theorem StillWaiting.sublist (h : StillWaiting quit gone calls waits waits') :
    waits.Sublist waits' :=
  h.kept ▸ List.filter_sublist

theorem StillWaiting.not_gone (h : StillWaiting quit gone calls waits waits') : calls ∉ gone :=
  fun hmem => Nat.lt_irrefl _ (h.past _ hmem)

theorem StillWaiting.call (h : StillWaiting quit gone calls waits waits') :
    StillWaiting quit gone (calls + 1) waits waits' where
  kept := h.kept
  quitters := h.quitters
  past n hn := Nat.lt_succ_of_lt (h.past n hn)
  called x hx := Nat.lt_succ_of_lt (h.called x hx)
  nodup := h.nodup

/-- A call waits in both runs. -/
theorem StillWaiting.board (h : StillWaiting quit gone calls waits waits') {x : Wait ι}
    (hx : x.call = calls) : StillWaiting quit gone (calls + 1) (waits ++ [x]) (waits' ++ [x]) := by
  have hnew : x.call ∉ gone := hx ▸ h.not_gone
  constructor
  case kept =>
    rw [List.filter_append, ← h.kept]
    simp [hnew]
  case quitters =>
    intro y hy hgone
    rcases List.mem_append.mp hy with hy | hy
    · exact h.quitters y hy hgone
    · obtain rfl := List.mem_singleton.mp hy
      exact absurd hgone hnew
  case past => exact h.call.past
  case called =>
    intro y hy
    rcases List.mem_append.mp hy with hy | hy
    · exact h.call.called y hy
    · obtain rfl := List.mem_singleton.mp hy
      exact hx ▸ Nat.lt_succ_self _
  case nodup =>
    rw [List.map_append, List.nodup_append]
    refine ⟨h.nodup, by simp, ?_⟩
    intro n hn m hm
    obtain ⟨y, hy, rfl⟩ := List.mem_map.mp hn
    obtain rfl := List.mem_singleton.mp hm
    show y.call ≠ x.call
    rw [hx]
    exact Nat.ne_of_lt (h.called y hy)

/-- Some calls wait no longer in either run. -/
theorem StillWaiting.filter (h : StillWaiting quit gone calls waits waits')
    (stays : Wait ι → Bool) :
    StillWaiting quit gone calls (waits.filter stays) (waits'.filter stays) where
  kept := by
    rw [h.kept]
    simp only [List.filter_filter, Bool.and_comm]
  quitters x hx := h.quitters x (List.mem_of_mem_filter hx)
  past := h.past
  called x hx := h.called x (List.mem_of_mem_filter hx)
  nodup := h.nodup.sublist (List.filter_sublist.map _)

/-- A call waits once, so that its number tells whether it is among some that
    wait. -/
theorem StillWaiting.mem_calls_iff (h : StillWaiting quit gone calls waits waits') {x : Wait ι}
    (hx : x ∈ waits') (p : Wait ι → Bool) :
    x.call ∈ (waits.filter p).map (·.call) ↔ x.call ∉ gone ∧ p x = true := by
  have hkept : x ∈ waits ↔ x.call ∉ gone := by
    rw [h.kept]
    simp [hx]
  rw [← hkept]
  constructor
  · intro hmem
    obtain ⟨y, hy, heq⟩ := List.mem_map.mp hmem
    obtain ⟨hy, hp⟩ := List.mem_filter.mp hy
    obtain rfl := List.inj_on_of_nodup_map h.nodup (h.sublist.subset hy) hx heq
    exact ⟨hy, hp⟩
  · intro hmem
    exact List.mem_map_of_mem (List.mem_filter.mpr hmem)

/-- Some calls are given up in one run. -/
theorem StillWaiting.giveUp (h : StillWaiting quit gone calls waits waits')
    (stays : Wait ι → Bool) (hquit : ∀ x ∈ waits', stays x = false → quit x.caller = true) :
    StillWaiting quit (gone ++ (waits.filter fun x => !stays x).map (·.call)) calls
      (waits.filter stays) waits' := by
  constructor
  case kept =>
    conv_lhs => rw [h.kept, List.filter_filter]
    refine List.filter_congr fun x hx => ?_
    simp only [List.mem_append, h.mem_calls_iff hx]
    by_cases hgone : x.call ∈ gone <;> simp [hgone]
  case quitters =>
    intro x hx hmem
    rcases List.mem_append.mp hmem with hmem | hmem
    · exact h.quitters x hx hmem
    · obtain ⟨-, hstays⟩ := (h.mem_calls_iff hx _).mp hmem
      exact hquit x hx (by simpa using hstays)
  case past =>
    intro n hn
    rcases List.mem_append.mp hn with hn | hn
    · exact h.past n hn
    · obtain ⟨y, hy, rfl⟩ := List.mem_map.mp hn
      exact h.called y (h.sublist.subset (List.mem_of_mem_filter hy))
  case called => exact h.called
  case nodup => exact h.nodup

end

/-- A state of a run in which some calls were given up, and the state of the run
    in which their callers stayed. -/
structure Alike (quit : ι → Bool) (gone : List Nat) (w w' : TracedCache ι) : Prop where
  course : SameCourse w.shared w'.shared
  calls : w'.calls = w.calls
  author : w'.author = w.author
  waits : StillWaiting quit gone w.calls w.waits w'.waits

variable {quit : ι → Bool} {gone : List Nat} {w w' : TracedCache ι}

theorem Alike.request (h : Alike quit gone w w') (caller : ι) (key : CacheKey) :
    Alike quit gone (w.step (.request caller key)).1 (w'.step (.request caller key)).1 ∧
      (w.step (.request caller key)).2 =
        (w'.step (.request caller key)).2.filter (·.call ∉ gone) := by
  have hcourse := h.course.step (.request caller key)
  rw [← step_shared, ← step_shared] at hcourse
  have hnew := h.waits.not_gone
  unfold TracedCache.step at hcourse ⊢
  dsimp only at hcourse ⊢
  rw [h.course.lookup key, h.calls] at hcourse ⊢
  cases hlookup : w.shared.lookup key with
  | error failure =>
    rw [hlookup] at hcourse
    exact ⟨⟨hcourse, rfl, h.author, h.waits.call⟩, by simp [hnew]⟩
  | ok lookup =>
    rw [hlookup] at hcourse
    cases lookup with
    | hit r => exact ⟨⟨hcourse, rfl, h.author, h.waits.call⟩, by simp [h.author, hnew]⟩
    | joined n => exact ⟨⟨hcourse, rfl, h.author, h.waits.board rfl⟩, rfl⟩
    | started n => exact ⟨⟨hcourse, rfl, h.author, h.waits.board rfl⟩, rfl⟩

theorem Alike.land (h : Alike quit gone w w') (n : Nat) (outcome : Attempt Result) :
    Alike quit gone (w.step (.land n outcome)).1 (w'.step (.land n outcome)).1 ∧
      (w.step (.land n outcome)).2 =
        (w'.step (.land n outcome)).2.filter (·.call ∉ gone) := by
  have hcourse := h.course.step (.land n outcome)
  rw [← step_shared, ← step_shared] at hcourse
  cases hf : w.shared.flight? n with
  | none =>
    rw [step_land_none hf, step_land_none (h.course.flight?_none hf)]
    exact ⟨h, rfl⟩
  | some f =>
    obtain ⟨f', hf', hnumber, hkey⟩ := h.course.flight?_some hf
    have harrival := h.course.arrival hnumber hkey outcome
    have hlanding := (h.course.land hnumber hkey (w.shared.arrival f outcome)).2
    unfold TracedCache.step at hcourse ⊢
    dsimp only at hcourse ⊢
    rw [hf, hf'] at hcourse ⊢
    dsimp only at hcourse ⊢
    rw [harrival]
    refine ⟨⟨hcourse, h.calls, ?_, h.waits.filter _⟩, ?_⟩
    · simp only [authorAfter, hlanding, hnumber, hkey, h.author]
    · simp only [deliveries, h.waits.kept, List.filter_map, List.filter_filter, Bool.and_comm]
      rfl

/-- An event keeps the states alike and tells the calls that were not given up
    the same. -/
theorem Alike.step (h : Alike quit gone w w') (e : Event ι) :
    Alike quit gone (w.step e).1 (w'.step e).1 ∧
      (w.step e).2 = (w'.step e).2.filter (·.call ∉ gone) := by
  have hcourse := h.course.step e
  rw [← step_shared, ← step_shared] at hcourse
  cases e with
  | request caller key => exact h.request caller key
  | land n outcome => exact h.land n outcome
  | leave caller => exact ⟨⟨hcourse, h.calls, h.author, h.waits.filter _⟩, rfl⟩
  | evict key => exact ⟨⟨hcourse, h.calls, h.author, h.waits⟩, rfl⟩
  | invalidate entity year => exact ⟨⟨hcourse, h.calls, h.author, h.waits⟩, rfl⟩
  | clear => exact ⟨⟨hcourse, h.calls, h.author, h.waits⟩, rfl⟩
  | clock now => exact ⟨⟨hcourse, h.calls, h.author, h.waits⟩, rfl⟩

/-- A caller gives up in one run only. -/
theorem Alike.leave (h : Alike quit gone w w') {caller : ι} (hquit : quit caller = true) :
    Alike quit (gone ++ w.quits quit (.leave caller)) (w.step (.leave caller)).1 w' where
  course := h.course.leave caller
  calls := h.calls
  author := h.author
  waits := by
    have hwaits := h.waits.giveUp (fun x => x.caller ≠ caller) (by simp +contextual [hquit])
    show StillWaiting quit _ w.calls (w.waits.filter fun x => x.caller ≠ caller) w'.waits
    simpa [quits, hquit] using hwaits

omit [DecidableEq ι] in
theorem start_alike (limits : CacheLimits) (now : Except TimeFault Moment) :
    Alike quit [] (start limits now) (start limits now) where
  course := ⟨rfl, rfl, rfl⟩
  calls := rfl
  author := rfl
  waits :=
    ⟨rfl, List.forall_mem_nil _, List.forall_mem_nil _, List.forall_mem_nil _, List.nodup_nil⟩

/-- Of the calls that were given up, those that are told something are told it
    where their callers stayed. -/
theorem Alike.told (h : Alike quit gone w w') {e : Event ι} {d : Delivery ι}
    (hd : d ∈ (w'.step e).2) (hgone : d.call ∈ gone) : quit d.caller = true := by
  have hnew : w'.calls ∉ gone := h.calls ▸ h.waits.not_gone
  cases e with
  | request caller key =>
    rcases request_delivery hd with ⟨failure, rfl⟩ | ⟨e, -, -, rfl⟩
    · exact absurd hgone hnew
    · exact absurd hgone hnew
  | land n outcome =>
    obtain ⟨⟨x, hx, o, -, rfl⟩, -, -⟩ := land_delivery hd
    exact h.waits.quitters x hx hgone
  | leave caller => cases hd
  | evict key => cases hd
  | invalidate entity year => cases hd
  | clear => cases hd
  | clock now => cases hd

/-- The other callers are told the same by an event. -/
theorem Alike.told_others (h : Alike quit gone w w') (e : Event ι) :
    (w'.step e).2.filter (!quit ·.caller) = (w.step e).2.filter (!quit ·.caller) := by
  rw [(h.step e).2, List.filter_filter]
  refine List.filter_congr fun d hd => ?_
  by_cases hgone : d.call ∈ gone
  · simp [h.told hd hgone]
  · simp [hgone]

theorem Alike.run (h : Alike quit gone w w') (es : List (Event ι)) :
    Alike quit (gone ++ w.gaveUp quit es) (w.run es).1 (w'.run (staying quit es)).1 ∧
      (w'.run (staying quit es)).2.filter (!quit ·.caller) =
        (w.run es).2.filter (!quit ·.caller) := by
  induction es generalizing gone w w' with
  | nil =>
    rw [gaveUp, List.append_nil]
    exact ⟨h, rfl⟩
  | cons e es ih =>
    have hgone : gone ++ w.gaveUp quit (e :: es) =
        (gone ++ w.quits quit e) ++ (w.step e).1.gaveUp quit es :=
      (List.append_assoc _ _ _).symm
    rw [hgone, run_cons, List.filter_append]
    cases hleave : e.isLeaveOf quit with
    | true =>
      obtain ⟨caller, rfl, hquit⟩ := SharedCache.eq_leave hleave
      obtain ⟨halike, htold⟩ := ih (h.leave hquit)
      have hstaying : staying quit (.leave caller :: es) = staying quit es := by
        simp [staying, hleave]
      rw [hstaying]
      exact ⟨halike, htold⟩
    | false =>
      have hquits : w.quits quit e = [] := quits_eq_nil hleave
      obtain ⟨halike, htold⟩ := ih (h.step e).1
      have hstaying : staying quit (e :: es) = e :: staying quit es := by
        simp [staying, hleave]
      rw [hstaying, run_cons, List.filter_append, hquits, List.append_nil, h.told_others e, htold]
      exact ⟨halike, rfl⟩

/-- A registered flight that comes to a result leaves it in the cache. -/
theorem Inv.kept?_land (h : w.Inv) {f : Flight ι} (hf : f ∈ w.shared.flights)
    (hreg : w.shared.cache.flight? f.key = some f.number) {outcome : Attempt Result} {r : Result}
    (harrival : w.shared.arrival f outcome = .ok r) :
    (w.shared.step (.land f.number outcome)).1.cache.kept? f.key =
      some ⟨f.key, r, w.shared.time⟩ := by
  have hstep : (w.shared.step (.land f.number outcome)).1.cache =
      (w.shared.cache.refresh ⟨f.key, r, w.shared.time⟩).trim.detach f.key := by
    simp only [SharedCache.step, h.flight?_of_mem hf, harrival, SharedCache.land,
      Cache.land_registered hreg]
  have hnodup := (h.step (.land f.number outcome)).consistent.entries_nodup
  rw [step_shared, hstep] at hnodup
  rw [hstep]
  exact find?_eq_some_of_nodup hnodup (Cache.mem_store _ ⟨f.key, r, w.shared.time⟩)

/-! ### Giving up -/

/-- **Giving up does not matter to others.**  Take any run and any callers, and
    the run in which they do not give up.  After both, and so after each of their
    steps, the entries, the registrations and the counts are the same, the same
    flights are under way, and the other callers were told the same; of any
    further event, all calls but those that were given up are told the same.  A
    flight that comes to a result leaves it in the cache, whoever still waits,
    unless its key was dropped while it was under way. -/
theorem giving_up_unnoticed (limits : CacheLimits) (now : Except TimeFault Moment)
    (quit : ι → Bool) (es : List (Event ι)) :
    let s := (SharedCache.start limits now).run es
    let s' := (SharedCache.start limits now).run (staying quit es)
    let w : TracedCache ι := reached limits now es
    let w' : TracedCache ι := reached limits now (staying quit es)
    (s'.1.cache = s.1.cache ∧ s'.1.routes = s.1.routes) ∧
    s'.2.filter (!quit ·.caller) = s.2.filter (!quit ·.caller) ∧
    (w.shared = s.1 ∧ w'.shared = s'.1 ∧
      ∀ e, (w.step e).2 =
        (w'.step e).2.filter (·.call ∉ (start limits now).gaveUp quit es)) ∧
    ∀ f ∈ s.1.flights, ∀ outcome r, s.1.arrival f outcome = .ok r →
      (s.1.step (.land f.number outcome)).1.cache.kept? f.key = some ⟨f.key, r, s.1.time⟩ ∨
      ∃ before d after, es = before ++ Drop.event d :: after ∧ d.selects f.key = true ∧
        (f.number, f.key) ∈ ((SharedCache.start limits now).run before).1.routes := by
  intro s s' w w'
  have hw : w.Inv := reached_inv limits now es
  have hshared : w.shared = s.1 := reached_shared limits now es
  have hshared' : w'.shared = s'.1 := reached_shared limits now (staying quit es)
  obtain ⟨halike, htold⟩ :=
    (start_alike limits now : Alike quit [] (start limits now) (start limits now)).run es
  refine ⟨?_, ?_, ⟨hshared, hshared', fun e => (halike.step e).2⟩, ?_⟩
  · rw [← hshared, ← hshared']
    exact ⟨halike.course.cache, halike.course.routes⟩
  · have hs : s.2 = ((start limits now : TracedCache ι).run es).2.map Delivery.answer :=
      ((start_inv limits now).run_answers es).symm
    have hs' : s'.2 =
        ((start limits now : TracedCache ι).run (staying quit es)).2.map Delivery.answer :=
      ((start_inv limits now).run_answers _).symm
    rw [hs, hs', List.filter_map, List.filter_map]
    exact congrArg (List.map Delivery.answer) htold
  · intro f hf outcome r harrival
    rw [← hshared] at hf harrival ⊢
    rcases under_way_cases limits now es (SharedCache.mem_routes hf) with
      hreg | ⟨before, d, after, heq, hselects, hunder⟩
    · exact .inl (hw.kept?_land hf hreg harrival)
    · rw [reached_shared] at hunder
      exact .inr ⟨before, d, after, heq, hselects, hunder⟩

/-- Both callers of the flight give up, and its result is there for the next. -/
example :
    let key : CacheKey := ⟨.text "acme", .int 2024, .null, .text "f1"⟩
    let result : Result := ⟨.invalid .divisionByZero, .amount, []⟩
    let run := (SharedCache.start {} (.ok default) : SharedCache Nat).run
      [.request 1 key, .request 2 key, .leave 1, .leave 2, .land 0 (.ok result), .request 3 key]
    run.2.map (fun a => (a.caller, a.outcome.toOption)) = [(3, some result)] := by
  decide

end TracedCache

end KeyFigures
