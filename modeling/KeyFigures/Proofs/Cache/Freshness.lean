/-
  KeyFigures/Proofs/Cache/Freshness.lean
  ======================================
  **What was dropped does not come back.**

  Results are dropped because the ledger behind them may have changed, and so
  may a flight under way have read the old one.  `dropped_stays_dropped` says
  that after a drop a selected key gets its results from new flights only, in
  whatever order the old ones come to their ends; those who wait for an old
  flight are still told its outcome; and keys that were not selected keep their
  rows.

  Flights are numbered as they start, so the flights before a drop are those
  with numbers below some bound.  `TracedCache.Fresh` says that nothing of them
  can reach a key any more.
-/
import KeyFigures.Proofs.Cache.Reachable

namespace KeyFigures

namespace TracedCache

variable {ι : Type} {w : TracedCache ι} {key : CacheKey} {m c : Nat}

/-! ### New flights only -/

/-- Calls from number `c` on get what is known of a key from flights from number
    `m` on. -/
structure Fresh (w : TracedCache ι) (key : CacheKey) (m c : Nat) : Prop where
  misses : m ≤ w.shared.cache.misses
  registered : ∀ n, (key, n) ∈ w.shared.cache.flights → m ≤ n
  waits : ∀ x ∈ w.waits, x.key = key → c ≤ x.call → m ≤ x.flight
  kept : ∀ e ∈ w.shared.cache.entries, e.key = key → ∀ n ∈ w.author key, m ≤ n

/-- Losing rows and waiting calls does no harm. -/
theorem Fresh.mono (h : w.Fresh key m c) {w' : TracedCache ι}
    (hmisses : w'.shared.cache.misses = w.shared.cache.misses)
    (hflights : ∀ p ∈ w'.shared.cache.flights, p ∈ w.shared.cache.flights)
    (hwaits : ∀ x ∈ w'.waits, x ∈ w.waits)
    (hentries : ∀ e ∈ w'.shared.cache.entries, e ∈ w.shared.cache.entries)
    (hauthor : w'.author = w.author) : w'.Fresh key m c where
  misses := by
    rw [hmisses]
    exact h.misses
  registered := fun n hn => h.registered n (hflights _ hn)
  waits := fun x hx => h.waits x (hwaits x hx)
  kept := by
    rw [hauthor]
    exact fun e he => h.kept e (hentries e he)

/-- A call may wait for a flight that is new or of another key. -/
theorem Fresh.wait (h : w.Fresh key m c) {x : Wait ι} (hx : x.key = key → m ≤ x.flight) :
    Fresh { w with waits := w.waits ++ [x] } key m c where
  misses := h.misses
  registered := h.registered
  waits := by
    intro y hy hkey hcall
    rcases List.mem_append.mp hy with hy | hy
    · exact h.waits y hy hkey hcall
    · obtain rfl := List.mem_singleton.mp hy
      exact hx hkey
  kept := h.kept

variable [DecidableEq ι]

open SharedCache (Event)

theorem Fresh.request (h : w.Fresh key m c) (caller : ι) (k : CacheKey) :
    (w.step (.request caller k)).1.Fresh key m c := by
  obtain ⟨entries, evictions, hexpire, hsub⟩ := w.shared.cache.expire_eq w.shared.time k
  rcases w.step_request caller k with
    ⟨fault, -, heq⟩ | ⟨-, e, he, rfl, heq⟩ | ⟨-, n, hn, heq⟩ | ⟨-, -, hn, heq⟩
  · rw [heq]
    exact h.mono rfl (fun _ hp => hp) (fun _ hx => hx) (fun _ he => he) rfl
  · rw [heq]
    exact h.mono rfl (fun _ hp => hp) (fun _ hx => hx)
      (fun _ hx => Cache.mem_of_mem_refresh he hx) rfl
  · rw [heq, hexpire]
    have hwait := h.wait (x := ⟨w.calls, caller, k, n⟩) fun hkey =>
      h.registered n (hkey ▸ Cache.mem_of_flight? hn)
    exact hwait.mono rfl (fun _ hp => hp) (fun _ hx => hx) (fun _ he => hsub.subset he) rfl
  · rw [heq, hexpire]
    have hwait := h.wait (x := ⟨w.calls, caller, k, w.shared.cache.misses⟩) fun _ => h.misses
    constructor
    case misses => exact Nat.le_succ_of_le h.misses
    case registered =>
      intro n hmem
      rcases List.mem_append.mp hmem with hmem | hmem
      · exact h.registered n hmem
      · obtain ⟨-, rfl⟩ := Prod.mk.inj (List.mem_singleton.mp hmem)
        exact h.misses
    case waits => exact hwait.waits
    case kept => exact fun e he => h.kept e (hsub.subset he)

theorem Fresh.land (h : w.Fresh key m c) (n : Nat) (outcome : Attempt Result) :
    (w.step (.land n outcome)).1.Fresh key m c := by
  cases hf : w.shared.flight? n with
  | none =>
    rw [step_land_none hf]
    exact h
  | some f =>
    rcases step_land hf outcome with ⟨r, rfl, hreg, heq⟩ | ⟨failure, -, heq⟩ | ⟨-, heq⟩
    · rw [heq]
      constructor
      case misses => exact h.misses
      case registered => exact fun n hn => h.registered n (List.mem_of_mem_filter hn)
      case waits => exact fun x hx => h.waits x (List.mem_of_mem_filter hx)
      case kept =>
        intro e he hkey n' hn'
        by_cases hsame : f.key = key
        · -- The author is the flight that lands, and it was registered.
          subst hsame
          have hauthor := Function.update_self f.key (some f.number) w.author
          obtain rfl := Option.some.inj (hauthor.symm.trans hn')
          exact h.registered _ (Cache.mem_of_flight? hreg)
        · have hauthor := Function.update_of_ne (Ne.symm hsame) (some f.number) w.author
          rcases Cache.mem_refresh.mp (Cache.mem_of_mem_trim he) with ⟨hold, -⟩ | rfl
          · exact h.kept e hold hkey n' (hauthor.symm.trans hn')
          · exact absurd hkey hsame
    · rw [heq]
      exact h.mono rfl (fun _ hp => List.mem_of_mem_filter hp)
        (fun _ hx => List.mem_of_mem_filter hx) (fun _ he => he) rfl
    · rw [heq]
      exact h.mono rfl (fun _ hp => hp) (fun _ hx => List.mem_of_mem_filter hx)
        (fun _ he => he) rfl

theorem Fresh.drop (h : w.Fresh key m c) (d : Drop) : (w.step d.event).1.Fresh key m c := by
  rw [step_drop]
  exact h.mono rfl (fun _ hp => List.mem_of_mem_filter hp) (fun _ hx => hx)
    (fun _ he => List.mem_of_mem_filter he) rfl

theorem Fresh.step (h : w.Fresh key m c) (e : Event ι) : (w.step e).1.Fresh key m c := by
  cases e with
  | request caller k => exact h.request caller k
  | land n outcome => exact h.land n outcome
  | leave caller =>
    exact h.mono rfl (fun _ hp => hp) (fun _ hx => List.mem_of_mem_filter hx) (fun _ he => he) rfl
  | evict k => exact h.drop (.evict k)
  | invalidate entity year => exact h.drop (.invalidate entity year)
  | clear => exact h.drop .clear
  | clock now => exact h.mono rfl (fun _ hp => hp) (fun _ hx => hx) (fun _ he => he) rfl

theorem Fresh.run (h : w.Fresh key m c) (es : List (Event ι)) : (w.run es).1.Fresh key m c :=
  run_induction (P := fun w => w.Fresh key m c) (fun _ e h => h.step e) h es

/-- What a call is told about the key comes from a new flight. -/
theorem Fresh.delivery (h : w.Fresh key m c) {e : Event ι} {d : Delivery ι}
    (hd : d ∈ (w.step e).2) (hkey : d.key = key) (hcall : c ≤ d.call) : ∀ n ∈ d.flight, m ≤ n := by
  intro n hn
  cases e with
  | request caller k =>
    rcases request_delivery hd with ⟨failure, rfl⟩ | ⟨e, he, rfl, rfl⟩
    · cases hn
    · subst hkey
      exact h.kept e he rfl n hn
  | land n' outcome =>
    obtain ⟨⟨x, hx, o, rfl, rfl⟩, -, -⟩ := land_delivery hd
    obtain rfl := Option.some.inj hn
    exact h.waits x hx hkey hcall
  | leave caller => cases hd
  | evict k => cases hd
  | invalidate entity year => cases hd
  | clear => cases hd
  | clock now => cases hd

theorem Fresh.run_delivery (h : w.Fresh key m c) {es : List (Event ι)} {d : Delivery ι}
    (hd : d ∈ (w.run es).2) (hkey : d.key = key) (hcall : c ≤ d.call) : ∀ n ∈ d.flight, m ≤ n := by
  obtain ⟨before, e, after, -, hstep⟩ := mem_run hd
  exact (h.run before).delivery hstep hkey hcall

/-- A drop makes a selected key fresh. -/
theorem Inv.fresh_drop (h : w.Inv) {d : Drop} (hkey : d.selects key = true) :
    (w.step d.event).1.Fresh key w.shared.cache.misses w.calls := by
  rw [step_drop]
  constructor
  case misses => exact Nat.le_refl _
  case registered =>
    intro n hn
    obtain ⟨-, hnot⟩ := List.mem_filter.mp hn
    simp [hkey] at hnot
  case waits =>
    intro x hx _ hcall
    exact absurd (h.called x hx) (Nat.not_lt.mpr hcall)
  case kept =>
    intro e he hekey
    obtain ⟨-, hnot⟩ := List.mem_filter.mp he
    simp [hekey, hkey] at hnot

/-! ### Who joined before -/

/-- A call waits for a flight that is not registered any more and never will be
    again. -/
structure Detached (w : TracedCache ι) (x : Wait ι) : Prop where
  waits : x ∈ w.waits
  unregistered : ∀ p ∈ w.shared.cache.flights, p.2 ≠ x.flight
  started : x.flight < w.shared.cache.misses

variable {x : Wait ι}

omit [DecidableEq ι] in
/-- Losing registrations and gaining waiting calls does no harm. -/
theorem Detached.mono (h : w.Detached x) {w' : TracedCache ι}
    (hmisses : w'.shared.cache.misses = w.shared.cache.misses)
    (hflights : ∀ p ∈ w'.shared.cache.flights, p ∈ w.shared.cache.flights)
    (hwaits : ∀ y ∈ w.waits, y ∈ w'.waits) : w'.Detached x where
  waits := hwaits x h.waits
  unregistered := fun p hp => h.unregistered p (hflights p hp)
  started := by
    rw [hmisses]
    exact h.started

theorem Detached.request (h : w.Detached x) (caller : ι) (k : CacheKey) :
    (w.step (.request caller k)).1.Detached x := by
  obtain ⟨entries, evictions, hexpire, hsub⟩ := w.shared.cache.expire_eq w.shared.time k
  rcases w.step_request caller k with
    ⟨fault, -, heq⟩ | ⟨-, e, he, rfl, heq⟩ | ⟨-, n, hn, heq⟩ | ⟨-, -, hn, heq⟩
  · rw [heq]
    exact h.mono rfl (fun _ hp => hp) (fun _ hy => hy)
  · rw [heq]
    exact h.mono rfl (fun _ hp => hp) (fun _ hy => hy)
  · rw [heq, hexpire]
    exact h.mono rfl (fun _ hp => hp) (fun _ hy => List.mem_append_left _ hy)
  · rw [heq, hexpire]
    constructor
    case waits => exact List.mem_append_left _ h.waits
    case unregistered =>
      intro p hp
      rcases List.mem_append.mp hp with hp | hp
      · exact h.unregistered p hp
      · obtain rfl := List.mem_singleton.mp hp
        exact Nat.ne_of_gt h.started
    case started => exact Nat.lt_succ_of_lt h.started

theorem Detached.land (h : w.Detached x) {n : Nat} (hn : n ≠ x.flight)
    (outcome : Attempt Result) : (w.step (.land n outcome)).1.Detached x := by
  have hstay : x ∈ w.waits.filter (·.flight ≠ n) :=
    List.mem_filter.mpr ⟨h.waits, by simpa using hn.symm⟩
  cases hf : w.shared.flight? n with
  | none =>
    rw [step_land_none hf]
    exact h
  | some f =>
    rcases step_land hf outcome with ⟨r, -, -, heq⟩ | ⟨failure, -, heq⟩ | ⟨-, heq⟩
    · rw [heq]
      exact ⟨hstay, fun p hp => h.unregistered p (List.mem_of_mem_filter hp), h.started⟩
    · rw [heq]
      exact ⟨hstay, fun p hp => h.unregistered p (List.mem_of_mem_filter hp), h.started⟩
    · rw [heq]
      exact ⟨hstay, h.unregistered, h.started⟩

theorem Detached.drop (h : w.Detached x) (d : Drop) : (w.step d.event).1.Detached x := by
  rw [step_drop]
  exact h.mono rfl (fun _ hp => List.mem_of_mem_filter hp) (fun _ hy => hy)

/-- Only its own giving up and the end of its flight end the waiting of a call. -/
theorem Detached.step (h : w.Detached x) {e : Event ι} (hleave : e ≠ .leave x.caller)
    (hland : ∀ outcome, e ≠ .land x.flight outcome) : (w.step e).1.Detached x := by
  cases e with
  | request caller k => exact h.request caller k
  | land n outcome =>
    refine h.land ?_ outcome
    rintro rfl
    exact hland outcome rfl
  | leave caller =>
    have hne : x.caller ≠ caller := by
      rintro rfl
      exact hleave rfl
    exact ⟨List.mem_filter.mpr ⟨h.waits, by simpa using hne⟩, h.unregistered, h.started⟩
  | evict k => exact h.drop (.evict k)
  | invalidate entity year => exact h.drop (.invalidate entity year)
  | clear => exact h.drop .clear
  | clock now => exact h.mono rfl (fun _ hp => hp) (fun _ hy => hy)

theorem Detached.run {w : TracedCache ι} (h : w.Detached x) {es : List (Event ι)}
    (hleave : .leave x.caller ∉ es) (hland : ∀ outcome, .land x.flight outcome ∉ es) :
    (w.run es).1.Detached x := by
  induction es generalizing w with
  | nil => exact h
  | cons e rest ih =>
    rw [run_cons]
    have hstep : (w.step e).1.Detached x := by
      refine h.step ?_ ?_
      · rintro rfl
        exact hleave List.mem_cons_self
      · rintro outcome rfl
        exact hland outcome List.mem_cons_self
    exact ih hstep (fun hmem => hleave (List.mem_cons_of_mem _ hmem))
      (fun outcome hmem => hland outcome (List.mem_cons_of_mem _ hmem))

/-- The end of its flight reaches a call that waits for a detached flight
    unchanged. -/
theorem Detached.delivery (h : w.Detached x) (hw : w.Inv) (outcome : Attempt Result) :
    ⟨x.call, x.caller, x.key, some x.flight, outcome⟩ ∈ (w.step (.land x.flight outcome)).2 := by
  obtain ⟨f, hf, hnumber, -⟩ := SharedCache.flight?_of_route hw.routes_nodup (hw.waits x h.waits)
  have hunregistered : w.shared.cache.flight? f.key ≠ some f.number := by
    intro hreg
    exact h.unregistered _ (Cache.mem_of_flight? hreg) hnumber
  have htold : ⟨x.call, x.caller, x.key, some x.flight, outcome⟩ ∈ w.deliveries x.flight outcome :=
    List.mem_map.mpr ⟨x, List.mem_filter.mpr ⟨h.waits, by simp⟩, rfl⟩
  rcases step_land hf outcome with ⟨r, -, hreg, -⟩ | ⟨failure, hreg, -⟩ | ⟨-, heq⟩
  · exact absurd hreg hunregistered
  · exact absurd hreg hunregistered
  · rw [heq]
    exact htold

/-- A drop detaches those who wait for a selected key. -/
theorem Inv.detached_drop (h : w.Inv) {d : Drop} (hx : x ∈ w.waits)
    (hkey : d.selects x.key = true) : (w.step d.event).1.Detached x := by
  rw [step_drop]
  constructor
  case waits => exact hx
  case unregistered =>
    intro p hp heq
    obtain ⟨hp, hnot⟩ := List.mem_filter.mp hp
    have hroute := h.registered p hp
    rw [heq] at hroute
    rw [SharedCache.route_unique h.routes_nodup hroute (h.waits x hx), hkey] at hnot
    cases hnot
  case started => exact h.lt_misses (h.waits x hx)

/-! ### Drops -/

/-- **What was dropped does not come back.**  Take any run up to a drop and any
    run after it.  The drop takes the rows of the selected keys out of the two
    tables and nothing else.  From then on no call for a selected key is told
    what a flight from before the drop found out, no entry of such a key comes
    from one, and who had joined such a flight is told its outcome as soon as it
    lands. -/
theorem dropped_stays_dropped (limits : CacheLimits) (now : Except TimeFault Moment)
    (before after : List (Event ι)) (d : Drop) :
    let w : TracedCache ι := reached limits now before
    let dropped := (w.step d.event).1
    let later := (dropped.run after).1
    (later.shared =
        ((SharedCache.start limits now).run (before ++ d.event :: after)).1 ∧
      (dropped.run after).2.map Delivery.answer = (dropped.shared.run after).2) ∧
    (dropped.shared.cache.entries =
        w.shared.cache.entries.filter (fun e => !d.selects e.key) ∧
      dropped.shared.cache.flights =
        w.shared.cache.flights.filter (fun p => !d.selects p.1) ∧
      dropped.shared.flights = w.shared.flights ∧ dropped.waits = w.waits) ∧
    ∀ key, d.selects key = true →
      (∀ x ∈ (dropped.run after).2, x.key = key → w.calls ≤ x.call →
        later.Sourced x ∧ ∀ n ∈ x.flight, n ∉ w.starts.map Prod.fst) ∧
      (∀ e ∈ later.shared.cache.entries, e.key = key →
        ∃ n, later.author key = some n ∧ n ∉ w.starts.map Prod.fst ∧
          (n, key) ∈ later.starts ∧ (n, .ok e.result) ∈ later.landings) ∧
      (∀ x ∈ w.waits, x.key = key → .leave x.caller ∉ after →
        (∀ outcome, .land x.flight outcome ∉ after) →
        ∀ outcome, ⟨x.call, x.caller, x.key, some x.flight, outcome⟩ ∈
          (later.step (.land x.flight outcome)).2) := by
  intro w dropped later
  have hw : w.Inv := reached_inv limits now before
  have hdropped : dropped.Inv := hw.step d.event
  have hlater : later.Inv := hdropped.run after
  -- The flights before the drop are those with a smaller number.
  have hold : ∀ n, w.shared.cache.misses ≤ n → n ∉ w.starts.map Prod.fst := by
    intro n hn
    rw [hw.numbered, List.mem_range]
    exact Nat.not_lt.mpr hn
  have hdrop : dropped = { w with shared.cache := w.shared.cache.dropWhere d.selects } :=
    congrArg Prod.fst (w.step_drop d)
  refine ⟨⟨?_, hdropped.run_answers after⟩, ?_, ?_⟩
  · have hreached := reached_shared (ι := ι) limits now (before ++ d.event :: after)
    rw [reached_append] at hreached
    exact hreached
  · rw [hdrop]
    exact ⟨rfl, rfl, rfl, rfl⟩
  intro key hkey
  have hfresh : dropped.Fresh key w.shared.cache.misses w.calls := hw.fresh_drop hkey
  refine ⟨?_, ?_, ?_⟩
  · intro x hx hxkey hcall
    exact ⟨hdropped.sourced_run hx, fun n hn => hold n (hfresh.run_delivery hx hxkey hcall n hn)⟩
  · rintro e he rfl
    obtain ⟨n, hauthor, hstart, hland⟩ := hlater.authored e he
    exact ⟨n, hauthor, hold n ((hfresh.run after).kept e he rfl n hauthor), hstart, hland⟩
  · rintro x hx rfl hleave hland outcome
    exact ((hw.detached_drop hx hkey).run hleave hland).delivery hlater outcome

/-- The old flight lands last: its caller is told what it brought, and the newer
    result stays. -/
example :
    let key : CacheKey := ⟨.text "acme", .int 2024, .null, .text "f1"⟩
    let old : Result := ⟨.invalid .divisionByZero, .amount, []⟩
    let new : Result := ⟨.invalid .missingLedgerData, .amount, []⟩
    let run := (start {} (.ok default) : TracedCache Nat).run
      [.request 1 key, .evict key, .request 2 key, .land 1 (.ok new), .land 0 (.ok old),
        .request 3 key]
    run.1.shared.cache.entries.map (·.result) = [new] ∧
      run.2.map (fun d => (d.caller, d.flight, d.outcome.toOption)) =
        [(2, some 1, some new), (1, some 0, some old), (3, some 1, some new)] := by
  decide

end TracedCache

end KeyFigures
