/-
  KeyFigures/Proofs/Cache/Recency.lean
  ====================================
  **What a full cache gives up, and what is too old to be served.**

  A shared cache does not say when its results were used.  A used cache runs one
  and writes that down beside it: when the result of a key was stored or served
  last, what the clock showed when it was stored, how many results were ever
  stored and how many were dropped on request.  Looking at a cache is no use.

  The invariant is `UsedCache.Inv`.  Its order of the entries is the reason why
  a store gives up the result that was used the longest ago, and its last field
  counts every result once: a result that was stored is still there, or it was
  evicted, or it was dropped.
-/
import KeyFigures.Proofs.Cache.Registration

namespace KeyFigures

/-! ### Lifetimes -/

namespace Binary

theorem ratio_pos (m : Nat) (q : Int) : 0 < (ratio m q).2 := by
  unfold ratio
  split
  · exact Nat.one_pos
  · exact Nat.pow_pos (by decide)

theorem ratio_eq (m : Nat) (q : Int) : ((ratio m q).1 : ℚ) = m * 2 ^ q * (ratio m q).2 := by
  unfold ratio
  split
  · rename_i hq
    obtain ⟨k, rfl⟩ := Int.eq_ofNat_of_zero_le hq
    simp
  · rename_i hq
    obtain ⟨k, rfl⟩ : ∃ k : Nat, q = -k := ⟨(-q).toNat, by omega⟩
    simp [zpow_neg]

theorem interval_lt {m : Nat} (hm : 0 < m) (q : Int) : (interval m q).1 < 4 * m := by
  unfold interval
  dsimp only
  split <;> omega

end Binary

/-- An age below the lifetime that a number of seconds stands for is below that
    number of seconds. -/
theorem CacheLimits.lt_of_lt_microsReaching {seconds : Float} {m : Nat} {q : Int}
    (hparts : Binary.parts seconds = .finite false m q) (hm : 0 < m) {age : Int}
    (hage : age < (max 1 (microsReaching seconds) : Nat)) :
    (age : ℚ) < m * 2 ^ q * 1000000 := by
  rcases le_or_gt age 0 with hzero | hpositive
  · calc (age : ℚ) ≤ 0 := by exact_mod_cast hzero
      _ < m * 2 ^ q * 1000000 := by positivity
  obtain ⟨n, rfl⟩ := Int.eq_ofNat_of_zero_le hpositive.le
  -- the lower end of the numbers that are read as `seconds`, in microseconds
  have hvalue := Binary.ratio_eq ((Binary.interval m q).1 * 1000000) (q - 2)
  have hpos := Binary.ratio_pos ((Binary.interval m q).1 * 1000000) (q - 2)
  have hreaching : n < microsReaching seconds := by omega
  simp only [microsReaching, hparts] at hreaching
  have hle : n * (Binary.ratio ((Binary.interval m q).1 * 1000000) (q - 2)).2 ≤
      (Binary.ratio ((Binary.interval m q).1 * 1000000) (q - 2)).1 := by
    split at hreaching
    · have hceil := (Nat.le_div_iff_mul_le hpos).mp (Nat.succ_le_of_lt hreaching)
      rw [Nat.succ_mul] at hceil
      omega
    · exact (Nat.le_div_iff_mul_le hpos).mp (Nat.lt_succ_iff.mp hreaching)
  have hlow : (n : ℚ) ≤ ((Binary.interval m q).1 * 1000000 : Nat) * 2 ^ (q - 2) := by
    refine le_of_mul_le_mul_right ?_ (Nat.cast_pos.mpr hpos : (0 : ℚ) < _)
    rw [← hvalue]
    exact_mod_cast hle
  calc ((n : Int) : ℚ) = (n : ℚ) := by norm_cast
    _ ≤ ((Binary.interval m q).1 * 1000000 : Nat) * 2 ^ (q - 2) := hlow
    _ < (4 * m * 1000000 : Nat) * 2 ^ (q - 2) := by
      have hlt := Binary.interval_lt hm q
      gcongr
    _ = m * 2 ^ q * 1000000 := by
      rw [zpow_sub₀ (by norm_num : (2 : ℚ) ≠ 0)]
      push_cast
      ring

/-! ### Rows that come and go -/

namespace Cache

theorem get?_eq_some {c : Cache} {now : Moment} {key : CacheKey} {e : CacheEntry}
    (h : c.get? now key = some e) : c.kept? key = some e ∧ c.isExpired now e = false := by
  unfold get? at h
  split at h
  · split at h
    · cases h
    · rename_i hkept hlive
      obtain rfl := Option.some.inj h
      exact ⟨hkept, by simpa using hlive⟩
  · cases h

/-- Dropping the entry of a key drops one entry. -/
theorem length_dropEntry {c : Cache} (h : (c.entries.map CacheEntry.key).Nodup) {key : CacheKey}
    {e : CacheEntry} (hkept : c.kept? key = some e) :
    (c.dropEntry key).entries.length + 1 = c.entries.length := by
  obtain ⟨hmem, rfl⟩ := mem_of_kept? hkept
  have hone : (c.entries.filter (·.key == e.key)).length = 1 := by
    rw [← List.countP_eq_length_filter]
    have hcount := List.count_eq_one_of_mem h (List.mem_map_of_mem hmem)
    rw [List.count, List.countP_map] at hcount
    exact hcount
  have hsplit := List.length_eq_length_filter_add (l := c.entries) (·.key == e.key)
  rw [hone] at hsplit
  unfold dropEntry
  simp only [bne]
  omega

theorem dropEntry_of_kept?_eq_none {c : Cache} {key : CacheKey} (h : c.kept? key = none) :
    (c.dropEntry key).entries = c.entries := by
  have hne := kept?_eq_none_iff.mp h
  simpa [dropEntry] using hne

/-- How many entries a drop takes. -/
def selected (c : Cache) (d : Drop) : Nat := (c.entries.filter fun e => d.selects e.key).length

/-- Some entries go, each of them evicted or dropped, and the others keep their
    places. -/
structure Sheds (c c' : Cache) (dropped : Nat) : Prop where
  limits : c'.limits = c.limits
  entries : c'.entries.Sublist c.entries
  balance : c'.size + c'.evictions + dropped = c.size + c.evictions

theorem Sheds.of_same {c c' : Cache} (hlimits : c'.limits = c.limits)
    (hentries : c'.entries = c.entries) (hevictions : c'.evictions = c.evictions) :
    c.Sheds c' 0 where
  limits := hlimits
  entries := hentries ▸ List.Sublist.refl _
  balance := by rw [size, size, hentries, hevictions, Nat.add_zero]

theorem sheds_expire {c : Cache} (h : (c.entries.map CacheEntry.key).Nodup) (now : Moment)
    (key : CacheKey) : c.Sheds (c.expire now key) 0 := by
  unfold expire
  split
  · rename_i e hkept
    split
    · have hlength := length_dropEntry h hkept
      refine ⟨rfl, List.filter_sublist, ?_⟩
      simp only [size] at hlength ⊢
      omega
    · exact .of_same rfl rfl rfl
  · exact .of_same rfl rfl rfl

theorem sheds_dropWhere (c : Cache) (d : Drop) :
    c.Sheds (c.dropWhere d.selects) (c.selected d) where
  limits := rfl
  entries := List.filter_sublist
  balance := by
    have hsplit := List.length_eq_length_filter_add (l := c.entries) (fun e => d.selects e.key)
    simp only [dropWhere, size, selected]
    omega

/-! ### Storing a result -/

section

variable {c : Cache} {e : CacheEntry}

/-- A result of a key without an entry comes last. -/
theorem refresh_entries_of_kept?_eq_none (h : c.kept? e.key = none) :
    (c.refresh e).entries = c.entries ++ [e] := by
  unfold refresh
  rw [dropEntry_of_kept?_eq_none h]

/-- At most one entry has to go for a new one, and never the new one. -/
theorem excess_refresh_le (h : c.kept? e.key = none)
    (hbound : ∀ m ∈ c.limits.maxEntries, c.size ≤ m) :
    (c.refresh e).excess ≤ 1 ∧ (c.refresh e).excess ≤ c.entries.length := by
  have hsize : (c.refresh e).size = c.size + 1 := by
    rw [size, refresh_entries_of_kept?_eq_none h, List.length_append]
    rfl
  have hlimits : (c.refresh e).limits = c.limits := rfl
  unfold excess
  rw [hsize, hlimits]
  cases hmax : c.limits.maxEntries with
  | none => exact ⟨Nat.zero_le _, Nat.zero_le _⟩
  | some m =>
    have hle := hbound m hmax
    have hpos := c.limits.maxEntries_pos m hmax
    unfold size at hle ⊢
    dsimp only
    omega

/-- A store gives up entries from the front, at most one of them. -/
theorem trim_refresh (h : c.kept? e.key = none)
    (hbound : ∀ m ∈ c.limits.maxEntries, c.size ≤ m) :
    ∃ evicted kept, (c.refresh e).entries.take (c.refresh e).excess = evicted ∧
      c.entries = evicted ++ kept ∧ (c.refresh e).trim.entries = kept ++ [e] ∧
      evicted.length ≤ 1 ∧ (c.refresh e).trim.evictions = c.evictions + evicted.length := by
  obtain ⟨hone, hle⟩ := excess_refresh_le h hbound
  have hentries := refresh_entries_of_kept?_eq_none h
  have hlength : (c.entries.take (c.refresh e).excess).length = (c.refresh e).excess := by
    rw [List.length_take]
    exact Nat.min_eq_left hle
  refine ⟨c.entries.take (c.refresh e).excess, c.entries.drop (c.refresh e).excess, ?_,
    (List.take_append_drop _ _).symm, ?_, ?_, ?_⟩
  · rw [hentries, List.take_append_of_le_length hle]
  · show (c.refresh e).entries.drop (c.refresh e).excess = _
    rw [hentries, List.drop_append_of_le_length hle]
  · rw [hlength]
    exact hone
  · rw [hlength]
    rfl

end

end Cache

namespace SharedCache

variable {ι : Type} {s : SharedCache ι}

open Cache (Sheds)

/-- What the end of a flight leads to: the key of the flight, and what becomes of
    its result. -/
def landing? (s : SharedCache ι) (n : Nat) (outcome : Attempt Result) :
    Option (CacheKey × Cache.Landing) :=
  (s.flight? n).map fun f => (f.key, (s.land f (s.arrival f outcome)).2)

theorem lookup_eq_hit {key : CacheKey} {r : Result} (h : s.lookup key = .ok (.hit r)) :
    ∃ e, s.get? key = .ok (some e) ∧ e.result = r := by
  unfold lookup at h
  cases hblocked : s.blocked? key with
  | some fault =>
    rw [hblocked] at h
    cases h
  | none =>
    rw [hblocked] at h
    have hhit := Except.ok.inj h
    unfold Cache.request at hhit
    split at hhit
    · rename_i e hget
      exact ⟨e, by simp [get?, hblocked, hget], Cache.Lookup.hit.inj hhit⟩
    · unfold Cache.board at hhit
      split at hhit <;> cases hhit

/-- A result that is to be kept needs the time. -/
theorem now_of_arrival {f : Flight ι} {outcome : Attempt Result} {r : Result}
    (h : s.arrival f outcome = .ok r) (hreg : s.cache.flight? f.key = some f.number) :
    s.now = .ok s.time := by
  unfold arrival at h
  unfold time
  cases hnow : s.now with
  | ok t => rfl
  | error fault =>
    obtain rfl := eq_ok_of_arrival h
    rw [hnow] at h
    simp only [Cache.isRegistered_iff.mpr hreg, if_true] at h
    cases h

/-- An age can be told only while the clock shows a time. -/
theorem now_of_unblocked {key : CacheKey} (h : s.blocked? key = none)
    (hlifetime : s.cache.limits.lifetime.isSome = true)
    (hkept : (s.cache.kept? key).isSome = true) : s.now = .ok s.time := by
  unfold blocked? at h
  unfold time
  cases hnow : s.now with
  | ok t => rfl
  | error fault => simp [hnow, hlifetime, hkept] at h

variable [DecidableEq ι]

theorem cache_step_hit {key : CacheKey} {e : CacheEntry} (h : s.get? key = .ok (some e))
    (caller : ι) :
    (s.step (.request caller key)).1.cache =
      { s.cache.refresh e with hits := s.cache.hits + 1 } := by
  obtain ⟨hblocked, hget⟩ := get?_eq_ok h
  simp [step, request, hblocked, Cache.request, hget]

/-- Only an entry is served at once. -/
theorem lookup_of_served {caller : ι} {key : CacheKey} {r : Result}
    (h : ⟨caller, .ok r⟩ ∈ (s.step (.request caller key)).2) :
    s.lookup key = .ok (.hit r) := by
  cases hblocked : s.blocked? key with
  | some fault => simp [step, hblocked] at h
  | none =>
    rcases s.cache.request_cases s.time key with
      ⟨e, -, -, heq⟩ | ⟨-, n, -, heq⟩ | ⟨-, -, heq⟩
    · simp only [step, hblocked, request, heq, List.mem_singleton, Answer.mk.injEq, true_and,
        Except.ok.injEq] at h
      simp only [lookup, hblocked, heq, h]
    · simp [step, hblocked, request, heq] at h
    · simp [step, hblocked, request, heq] at h

/-- A request that is not served sheds at most an entry that is too old. -/
theorem sheds_request (hnodup : (s.cache.entries.map CacheEntry.key).Nodup) {key : CacheKey}
    (h : ∀ r, s.lookup key ≠ .ok (.hit r)) (caller : ι) :
    s.cache.Sheds (s.step (.request caller key)).1.cache 0 := by
  have hexpire := Cache.sheds_expire hnodup s.time key
  cases hblocked : s.blocked? key with
  | some fault =>
    simp only [step, hblocked]
    exact .of_same rfl rfl rfl
  | none =>
    rcases s.cache.request_cases s.time key with
      ⟨e, -, -, heq⟩ | ⟨-, n, -, heq⟩ | ⟨-, -, heq⟩
    · exact absurd (by simp only [lookup, hblocked, heq]) (h e.result)
    · simp only [step, hblocked, request, heq]
      exact ⟨hexpire.limits, hexpire.entries, hexpire.balance⟩
    · simp only [step, hblocked, request, heq]
      exact ⟨hexpire.limits, hexpire.entries, hexpire.balance⟩

/-- A landing stores the result of a registered flight, at a time that the clock
    shows, or it changes no entry. -/
theorem landing?_cases (s : SharedCache ι) (n : Nat) (outcome : Attempt Result) :
    (∃ e : CacheEntry, s.now = .ok e.computedAt ∧ s.cache.flight? e.key = some n ∧
      s.landing? n outcome =
        some (e.key, .stored ((s.cache.refresh e).entries.take (s.cache.refresh e).excess)) ∧
      (s.step (.land n outcome)).1.cache = (s.cache.refresh e).trim.detach e.key) ∨
    ((∀ key evicted, s.landing? n outcome ≠ some (key, .stored evicted)) ∧
      s.cache.Sheds (s.step (.land n outcome)).1.cache 0) := by
  cases hf : s.flight? n with
  | none =>
    refine .inr ⟨by simp [landing?, hf], ?_⟩
    simp only [step, hf]
    exact .of_same rfl rfl rfl
  | some f =>
    obtain ⟨-, rfl⟩ := mem_of_flight? hf
    have hlanding : s.landing? f.number outcome =
        some (f.key, (s.land f (s.arrival f outcome)).2) := by
      rw [landing?, hf]
      rfl
    have hstep : (s.step (.land f.number outcome)).1.cache =
        (s.land f (s.arrival f outcome)).1.cache := by
      simp only [step, hf]
    rw [hlanding, hstep]
    unfold land
    rcases s.cache.land_cases s.time f.key f.number (s.arrival f outcome) with
      ⟨r, evicted, hok, hreg, heq⟩ | ⟨failure, herror, hreg, heq⟩ | ⟨hreg, landing, hlanding, heq⟩
    · refine .inl ⟨⟨f.key, r, s.time⟩, now_of_arrival hok hreg, hreg, ?_, by rw [heq]⟩
      rw [hok, Cache.land_registered hreg]
    · rw [heq]
      exact .inr ⟨by simp, .of_same rfl rfl rfl⟩
    · rw [heq]
      exact .inr ⟨by simpa using fun _ evicted _ => hlanding evicted, .of_same rfl rfl rfl⟩

end SharedCache

/-! ### Uses -/

/-- What is done with a shared cache: something happens to it, or someone looks
    whether a key has an entry, and which. -/
inductive Deed (ι : Type) where
  | event (e : SharedCache.Event ι)
  | look (key : CacheKey)

/-- What happens among some deeds. -/
def Deed.events {ι : Type} (deeds : List (Deed ι)) : List (SharedCache.Event ι) :=
  deeds.filterMap fun
    | .event e => some e
    | .look _ => none

/-- A shared cache with its uses. -/
structure UsedCache (ι : Type) extends TracedCache ι where
  /-- How much has happened, by which uses are told apart. -/
  time : Nat := 0
  /-- When the result of a key was stored or served last. -/
  lastUse : CacheKey → Nat := fun _ => 0
  /-- What the clock showed when the result of a key was stored last. -/
  storedAt : CacheKey → Option Moment := fun _ => none
  /-- How many results were stored. -/
  stored : Nat := 0
  /-- How many entries were dropped on request. -/
  dropped : Nat := 0

namespace UsedCache

variable {ι : Type}

open SharedCache (Event)

/-- A used cache before its first deed. -/
def start (limits : CacheLimits) (now : Except TimeFault Moment) : UsedCache ι :=
  { toTracedCache := .start limits now }

section

variable [DecidableEq ι]

/-- The step of the shared cache, with its uses.  A look is none. -/
def step (u : UsedCache ι) : Deed ι → UsedCache ι
  | .look _ => u
  | .event e =>
    let u' := { u with toTracedCache := (u.toTracedCache.step e).1, time := u.time + 1 }
    match e with
    | .request _ key =>
      match u.shared.lookup key with
      | .ok (.hit _) => { u' with lastUse := Function.update u.lastUse key u.time }
      | .ok (.joined _) | .ok (.started _) | .error _ => u'
    | .land n outcome =>
      match u.shared.landing? n outcome with
      | some (key, .stored _) =>
        { u' with
          lastUse := Function.update u.lastUse key u.time
          storedAt := Function.update u.storedAt key u.shared.now.toOption
          stored := u.stored + 1 }
      | some (_, .stale) | some (_, .failed) | none => u'
    | .evict key => { u' with dropped := u.dropped + u.shared.cache.selected (.evict key) }
    | .invalidate entity year =>
      { u' with dropped := u.dropped + u.shared.cache.selected (.invalidate entity year) }
    | .clear => { u' with dropped := u.dropped + u.shared.cache.selected .clear }
    | .leave _ | .clock _ => u'

/-- A run: one deed after another. -/
def run (u : UsedCache ι) (deeds : List (Deed ι)) : UsedCache ι := deeds.foldl step u

theorem toTracedCache_step (u : UsedCache ι) (e : Event ι) :
    (u.step (.event e)).toTracedCache = (u.toTracedCache.step e).1 := by
  unfold step
  cases e with
  | request caller key =>
    dsimp only
    split <;> rfl
  | land n outcome =>
    dsimp only
    split <;> rfl
  | leave caller => rfl
  | evict key => rfl
  | invalidate entity year => rfl
  | clear => rfl
  | clock now => rfl

/-- The uses have no influence: looks left out, a used cache goes through the
    states of the traced cache. -/
theorem toTracedCache_run (u : UsedCache ι) (deeds : List (Deed ι)) :
    (u.run deeds).toTracedCache = (u.toTracedCache.run (Deed.events deeds)).1 := by
  induction deeds generalizing u with
  | nil => rfl
  | cons deed deeds ih =>
    have hcons : u.run (deed :: deeds) = (u.step deed).run deeds := rfl
    rw [hcons, ih]
    cases deed with
    | look key => rfl
    | event e =>
      rw [toTracedCache_step]
      rfl

end

/-! ### The order of the entries -/

/-- The entries stand in the order of their last uses, all of them in the past,
    with the times at which they were stored. -/
structure InOrder (entries : List CacheEntry) (lastUse : CacheKey → Nat)
    (storedAt : CacheKey → Option Moment) (time : Nat) : Prop where
  ordered : entries.Pairwise fun a b => lastUse a.key < lastUse b.key
  past : ∀ e ∈ entries, lastUse e.key < time
  timed : ∀ e ∈ entries, storedAt e.key = some e.computedAt

variable {entries entries' : List CacheEntry} {lastUse : CacheKey → Nat}
  {storedAt storedAt' : CacheKey → Option Moment} {time : Nat}

theorem InOrder.sublist (h : InOrder entries lastUse storedAt time)
    (hsub : entries'.Sublist entries) {time' : Nat} (htime : time ≤ time') :
    InOrder entries' lastUse storedAt time' where
  ordered := h.ordered.sublist hsub
  past e he := Nat.lt_of_lt_of_le (h.past e (hsub.subset he)) htime
  timed e he := h.timed e (hsub.subset he)

/-- What is used now belongs at the end. -/
theorem InOrder.append (h : InOrder entries lastUse storedAt time) {e : CacheEntry}
    (hnew : ∀ x ∈ entries, x.key ≠ e.key) (hself : storedAt' e.key = some e.computedAt)
    (hothers : ∀ key ≠ e.key, storedAt' key = storedAt key) :
    InOrder (entries ++ [e]) (Function.update lastUse e.key time) storedAt' (time + 1) where
  ordered := by
    rw [List.pairwise_append]
    refine ⟨?_, List.pairwise_singleton _ _, ?_⟩
    · refine h.ordered.imp_of_mem fun ha hb hlt => ?_
      rwa [Function.update_of_ne (hnew _ ha), Function.update_of_ne (hnew _ hb)]
    · intro a ha b hb
      obtain rfl := List.mem_singleton.mp hb
      rw [Function.update_of_ne (hnew a ha), Function.update_self]
      exact h.past a ha
  past := by
    intro x hx
    rcases List.mem_append.mp hx with hx | hx
    · rw [Function.update_of_ne (hnew x hx)]
      exact Nat.lt_succ_of_lt (h.past x hx)
    · obtain rfl := List.mem_singleton.mp hx
      rw [Function.update_self]
      exact Nat.lt_succ_self time
  timed := by
    intro x hx
    rcases List.mem_append.mp hx with hx | hx
    · rw [hothers _ (hnew x hx)]
      exact h.timed x hx
    · obtain rfl := List.mem_singleton.mp hx
      exact hself

/-- What holds of a used cache at any time. -/
structure Inv (limits : CacheLimits) (u : UsedCache ι) : Prop where
  traced : u.toTracedCache.Inv
  limits : u.shared.cache.limits = limits
  bounded : ∀ m ∈ u.shared.cache.limits.maxEntries, u.shared.cache.size ≤ m
  inOrder : InOrder u.shared.cache.entries u.lastUse u.storedAt u.time
  /-- Every result that was stored is there still, or was evicted, or dropped. -/
  conserved : u.stored = u.shared.cache.size + u.shared.cache.evictions + u.dropped

variable {limits : CacheLimits} {u : UsedCache ι}

theorem start_inv (limits : CacheLimits) (now : Except TimeFault Moment) :
    Inv limits (start limits now : UsedCache ι) where
  traced := TracedCache.start_inv limits now
  limits := rfl
  bounded m _ := Nat.zero_le m
  inOrder := ⟨List.Pairwise.nil, List.forall_mem_nil _, List.forall_mem_nil _⟩
  conserved := rfl

/-- Entries go, and nothing is used. -/
theorem Inv.shed (h : u.Inv limits) {w : TracedCache ι} (hw : w.Inv) {n : Nat}
    (hsheds : u.shared.cache.Sheds w.shared.cache n) :
    Inv limits { u with toTracedCache := w, time := u.time + 1, dropped := u.dropped + n } where
  traced := hw
  limits := hsheds.limits.trans h.limits
  bounded := by
    intro m hm
    dsimp only at hm ⊢
    rw [hsheds.limits] at hm
    exact Nat.le_trans hsheds.entries.length_le (h.bounded m hm)
  inOrder := h.inOrder.sublist hsheds.entries (Nat.le_succ _)
  conserved := by
    have hbalance := hsheds.balance
    have hconserved := h.conserved
    dsimp only
    omega

/-- An entry is served. -/
theorem Inv.serve (h : u.Inv limits) {w : TracedCache ι} (hw : w.Inv) {e : CacheEntry}
    (hkept : u.shared.cache.kept? e.key = some e) {hits : Nat}
    (hcache : w.shared.cache = { u.shared.cache.refresh e with hits := hits }) :
    Inv limits { u with
      toTracedCache := w
      time := u.time + 1
      lastUse := Function.update u.lastUse e.key u.time } := by
  have hlength := Cache.length_dropEntry h.traced.consistent.entries_nodup hkept
  have hsize : w.shared.cache.size = u.shared.cache.size := by
    rw [hcache]
    simpa [Cache.size, Cache.refresh] using hlength
  have hevictions : w.shared.cache.evictions = u.shared.cache.evictions := by
    rw [hcache]
    rfl
  constructor
  case traced => exact hw
  case limits =>
    dsimp only
    rw [hcache]
    exact h.limits
  case bounded =>
    intro m hm
    dsimp only at hm ⊢
    rw [hcache] at hm
    rw [hsize]
    exact h.bounded m hm
  case inOrder =>
    dsimp only
    rw [hcache]
    have hothers : InOrder (u.shared.cache.dropEntry e.key).entries u.lastUse u.storedAt u.time :=
      h.inOrder.sublist List.filter_sublist (Nat.le_refl _)
    refine hothers.append ?_ (h.inOrder.timed e (Cache.mem_of_kept? hkept).1) fun _ _ => rfl
    intro x hx
    simpa using (List.mem_filter.mp hx).2
  case conserved =>
    dsimp only
    rw [hsize, hevictions]
    exact h.conserved

/-- A result is stored. -/
theorem Inv.store (h : u.Inv limits) {w : TracedCache ι} (hw : w.Inv) {e : CacheEntry}
    (hkept : u.shared.cache.kept? e.key = none)
    (hcache : w.shared.cache = (u.shared.cache.refresh e).trim.detach e.key) :
    Inv limits { u with
      toTracedCache := w
      time := u.time + 1
      lastUse := Function.update u.lastUse e.key u.time
      storedAt := Function.update u.storedAt e.key (some e.computedAt)
      stored := u.stored + 1 } := by
  obtain ⟨evicted, kept, -, hold, hnew, -, hevictions⟩ := Cache.trim_refresh hkept h.bounded
  have hentries : w.shared.cache.entries = kept ++ [e] := by
    rw [hcache]
    exact hnew
  have hcount : w.shared.cache.evictions = u.shared.cache.evictions + evicted.length := by
    rw [hcache]
    exact hevictions
  have hsub : kept.Sublist u.shared.cache.entries := hold ▸ List.sublist_append_right _ _
  constructor
  case traced => exact hw
  case limits =>
    dsimp only
    rw [hcache]
    exact h.limits
  case bounded =>
    intro m hm
    dsimp only at hm ⊢
    rw [hcache] at hm ⊢
    exact Cache.size_trim_le _ m hm
  case inOrder =>
    dsimp only
    rw [hentries]
    refine (h.inOrder.sublist hsub (Nat.le_refl _)).append ?_ (Function.update_self _ _ _)
      fun key hne => Function.update_of_ne hne _ _
    intro x hx
    exact Cache.kept?_eq_none_iff.mp hkept x (hsub.subset hx)
  case conserved =>
    have hconserved := h.conserved
    unfold Cache.size at hconserved ⊢
    dsimp only
    rw [hentries, hcount, hconserved, hold, List.length_append, List.length_append,
      List.length_singleton]
    omega

variable [DecidableEq ι]

theorem Inv.request (h : u.Inv limits) (caller : ι) (key : CacheKey) :
    (u.step (.event (.request caller key))).Inv limits := by
  have hw := h.traced.step (.request caller key)
  have hshared := u.toTracedCache.step_shared (.request caller key)
  by_cases hhit : ∃ r, u.shared.lookup key = .ok (.hit r)
  · obtain ⟨r, hlookup⟩ := hhit
    obtain ⟨e, hget, -⟩ := SharedCache.lookup_eq_hit hlookup
    obtain ⟨hkept, -⟩ := Cache.get?_eq_some (SharedCache.get?_eq_ok hget).2
    obtain ⟨-, rfl⟩ := Cache.mem_of_kept? hkept
    have hcache := SharedCache.cache_step_hit hget caller
    rw [← hshared] at hcache
    have hstep := h.serve hw hkept hcache
    simpa only [step, hlookup] using hstep
  · have hmiss : ∀ r, u.shared.lookup key ≠ .ok (.hit r) := fun r hr => hhit ⟨r, hr⟩
    have hsheds := SharedCache.sheds_request h.traced.consistent.entries_nodup hmiss caller
    rw [← hshared] at hsheds
    have hstep := h.shed hw hsheds
    unfold step
    dsimp only
    split
    · rename_i r hlookup
      exact absurd hlookup (hmiss r)
    · exact hstep
    · exact hstep
    · exact hstep

theorem Inv.land (h : u.Inv limits) (n : Nat) (outcome : Attempt Result) :
    (u.step (.event (.land n outcome))).Inv limits := by
  have hw := h.traced.step (.land n outcome)
  have hshared := u.toTracedCache.step_shared (.land n outcome)
  rcases u.shared.landing?_cases n outcome with ⟨e, hnow, hreg, hlanding, hcache⟩ | ⟨hnot, hsheds⟩
  · have hkept := (h.traced.consistent.kept?_or_flight? e.key).resolve_right (by simp [hreg])
    rw [← hshared] at hcache
    have hstep := h.store hw hkept hcache
    simpa only [step, hlanding, hnow, Except.toOption] using hstep
  · rw [← hshared] at hsheds
    have hstep := h.shed hw hsheds
    unfold step
    dsimp only
    split
    · rename_i key evicted hlanding
      exact absurd hlanding (hnot key evicted)
    · exact hstep
    · exact hstep
    · exact hstep

/-- A drop takes the entries that it selects. -/
theorem Inv.dropped (h : u.Inv limits) (d : Drop) :
    Inv limits { u with
      toTracedCache := (u.toTracedCache.step d.event).1
      time := u.time + 1
      dropped := u.dropped + u.shared.cache.selected d } := by
  refine h.shed (h.traced.step d.event) ?_
  rw [TracedCache.step_drop]
  exact u.shared.cache.sheds_dropWhere d

theorem Inv.step (h : u.Inv limits) (deed : Deed ι) : (u.step deed).Inv limits := by
  have hidle : ∀ e, (u.toTracedCache.step e).1.shared.cache = u.shared.cache →
      Inv limits { u with toTracedCache := (u.toTracedCache.step e).1, time := u.time + 1 } := by
    intro e hcache
    refine h.shed (n := 0) (h.traced.step e) ?_
    rw [hcache]
    exact .of_same rfl rfl rfl
  cases deed with
  | look key => exact h
  | event e =>
    cases e with
    | request caller key => exact h.request caller key
    | land n outcome => exact h.land n outcome
    | leave caller => exact hidle (.leave caller) rfl
    | evict key => exact h.dropped (.evict key)
    | invalidate entity year => exact h.dropped (.invalidate entity year)
    | clear => exact h.dropped .clear
    | clock now => exact hidle (.clock now) rfl

theorem Inv.run (h : u.Inv limits) (deeds : List (Deed ι)) : (u.run deeds).Inv limits := by
  induction deeds generalizing u with
  | nil => exact h
  | cons deed deeds ih => exact ih (h.step deed)

/-- A store gives up at most one entry, which was used before all that stay. -/
theorem Inv.evicted_before (h : u.Inv limits) {n : Nat} {outcome : Attempt Result}
    {key : CacheKey} {evicted : List CacheEntry}
    (hlanding : u.shared.landing? n outcome = some (key, .stored evicted)) :
    ∃ kept e, e.key = key ∧ u.shared.cache.entries = evicted ++ kept ∧
      (u.shared.step (.land n outcome)).1.cache.entries = kept ++ [e] ∧ evicted.length ≤ 1 ∧
      ∀ x ∈ evicted, ∀ y ∈ kept, u.lastUse x.key < u.lastUse y.key := by
  rcases u.shared.landing?_cases n outcome with ⟨e, -, hreg, heq, hcache⟩ | ⟨hnot, -⟩
  · have hkept := (h.traced.consistent.kept?_or_flight? e.key).resolve_right (by simp [hreg])
    obtain ⟨evicted', kept, htake, hold, hnew, hone, -⟩ := Cache.trim_refresh hkept h.bounded
    rw [heq, Option.some_inj, Prod.mk.injEq, Cache.Landing.stored.injEq, htake] at hlanding
    obtain ⟨rfl, rfl⟩ := hlanding
    refine ⟨kept, e, rfl, hold, ?_, hone, ?_⟩
    · rw [hcache]
      exact hnew
    · have hordered := h.inOrder.ordered
      rw [hold, List.pairwise_append] at hordered
      exact hordered.2.2
  · exact absurd hlanding (hnot key evicted)

/-- What is served at once is not too old. -/
theorem Inv.served_live (h : u.Inv limits) {caller : ι} {key : CacheKey} {r : Result}
    (hserved : ⟨caller, .ok r⟩ ∈ (u.shared.step (.request caller key)).2) :
    ∃ e ∈ u.shared.cache.entries, e.key = key ∧ e.result = r ∧
      u.storedAt key = some e.computedAt ∧
      ∀ n ∈ limits.lifetime, ∃ t, u.shared.now = .ok t ∧
        t.universal - e.computedAt.universal < n := by
  obtain ⟨e, hget, hresult⟩ := SharedCache.lookup_eq_hit (SharedCache.lookup_of_served hserved)
  obtain ⟨hblocked, hlive⟩ := SharedCache.get?_eq_ok hget
  obtain ⟨hkept, hexpired⟩ := Cache.get?_eq_some hlive
  obtain ⟨hmem, rfl⟩ := Cache.mem_of_kept? hkept
  refine ⟨e, hmem, rfl, hresult, h.inOrder.timed e hmem, fun n hn => ?_⟩
  rw [← h.limits] at hn
  have hnow := SharedCache.now_of_unblocked hblocked (by simp [Option.mem_def.mp hn])
    (by simp [hkept])
  refine ⟨u.shared.time, hnow, ?_⟩
  simpa [Cache.isExpired, Option.mem_def.mp hn] using hexpired

/-! ### The least recently used goes -/

/-- **A bounded cache gives up what was used the longest ago, and serves nothing
    that is too old.**  After any run it holds at most as many entries as it may,
    with distinct keys, in the order of their last uses.  A store gives up at most
    one entry, which was used before all the others, and puts the new one last.  A
    result that is served at once was stored less than the lifetime ago by the
    clock, and a lifetime that is given in seconds is exceeded by no rounding.
    Every result that was ever stored is still there, was evicted or was
    dropped. -/
theorem least_recently_used_goes (limits : CacheLimits) (now : Except TimeFault Moment)
    (deeds : List (Deed ι)) :
    let u : UsedCache ι := (start limits now).run deeds
    let cache := u.shared.cache
    u.shared = ((SharedCache.start limits now).run (Deed.events deeds)).1 ∧
    ((∀ m ∈ limits.maxEntries, cache.size ≤ m) ∧ (cache.entries.map (·.key)).Nodup ∧
      cache.entries.Pairwise fun a b => u.lastUse a.key < u.lastUse b.key) ∧
    (∀ n outcome key evicted, u.shared.landing? n outcome = some (key, .stored evicted) →
      ∃ kept e, e.key = key ∧ cache.entries = evicted ++ kept ∧
        (u.shared.step (.land n outcome)).1.cache.entries = kept ++ [e] ∧ evicted.length ≤ 1 ∧
        ∀ x ∈ evicted, ∀ y ∈ kept, u.lastUse x.key < u.lastUse y.key) ∧
    (∀ caller key r, ⟨caller, .ok r⟩ ∈ (u.shared.step (.request caller key)).2 →
      ∃ e ∈ cache.entries, e.key = key ∧ e.result = r ∧ u.storedAt key = some e.computedAt ∧
        ∀ n ∈ limits.lifetime, ∃ t, u.shared.now = .ok t ∧
          t.universal - e.computedAt.universal < n ∧
          ∀ seconds m q, Binary.parts seconds = .finite false m q → 0 < m →
            n = max 1 (CacheLimits.microsReaching seconds) →
            ((t.universal - e.computedAt.universal : Int) : ℚ) < m * 2 ^ q * 1000000) ∧
    u.stored = cache.size + cache.evictions + u.dropped := by
  intro u cache
  have h : u.Inv limits := (start_inv limits now).run deeds
  refine ⟨?_, ⟨?_, h.traced.consistent.entries_nodup, h.inOrder.ordered⟩, ?_, ?_, h.conserved⟩
  · have htraced : u.toTracedCache = TracedCache.reached limits now (Deed.events deeds) :=
      toTracedCache_run _ deeds
    exact (congrArg TracedCache.shared htraced).trans (TracedCache.reached_shared _ _ _)
  · rw [← h.limits]
    exact h.bounded
  · intro n outcome key evicted hlanding
    exact h.evicted_before hlanding
  · intro caller key r hserved
    obtain ⟨e, hmem, hkey, hresult, hstored, hage⟩ := h.served_live hserved
    refine ⟨e, hmem, hkey, hresult, hstored, fun n hn => ?_⟩
    obtain ⟨t, hnow, hlt⟩ := hage n hn
    refine ⟨t, hnow, hlt, fun seconds m q hparts hm heq => ?_⟩
    exact CacheLimits.lt_of_lt_microsReaching hparts hm (heq ▸ hlt)

/-- The second result was stored later than the first, and goes before it: the
    first was served meanwhile. -/
example :
    let key (year : Int) : CacheKey := ⟨.text "acme", .int year, .null, .text "f1"⟩
    let u := (start (.ofBounds (some 2) none) (.ok default) : UsedCache Nat).run
      [.event (.request 1 (key 2022)), .event (.land 0 (.ok default)),
        .event (.request 1 (key 2023)), .event (.land 1 (.ok default)),
        .event (.request 2 (key 2022)), .look (key 2023), .event (.request 2 (key 2024))]
    u.shared.landing? 2 (.ok default) =
      some (key 2024, .stored [⟨key 2023, default, default⟩]) := by
  decide

end UsedCache

end KeyFigures
