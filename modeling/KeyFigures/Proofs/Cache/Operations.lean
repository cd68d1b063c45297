/-
  KeyFigures/Proofs/Cache/Operations.lean
  =======================================
  **What the operations of a cache do to its two tables.**

  A cache holds results in one table and registrations of flights in another.
  `Cache.Consistent` says that either table has at most one row for a key and
  that no key is in both.  Every operation comes with an equation for the tables
  it leaves behind (`request_cases`, `land_cases`, `evict_eq`, …), and keeps a
  cache consistent.
-/
import KeyFigures.Cache.Basic
import Mathlib

namespace KeyFigures

/-- The row of a table with a given key, where keys do not repeat. -/
theorem find?_eq_some_of_nodup {α κ : Type} [DecidableEq κ] {key : α → κ} {rows : List α}
    (h : (rows.map key).Nodup) {x : α} (hx : x ∈ rows) :
    rows.find? (key · == key x) = some x := by
  cases hfind : rows.find? (key · == key x) with
  | none => exact absurd (List.find?_eq_none.mp hfind x hx) (by simp)
  | some y =>
    have hkey : key y = key x := by simpa using List.find?_some hfind
    rw [List.inj_on_of_nodup_map h (List.mem_of_find?_eq_some hfind) hx hkey]

namespace Cache

/-! ### Rows of the tables -/

theorem kept?_eq_none_iff {c : Cache} {key : CacheKey} :
    c.kept? key = none ↔ ∀ e ∈ c.entries, e.key ≠ key := by
  simp [kept?, List.find?_eq_none]

theorem mem_of_kept? {c : Cache} {key : CacheKey} {e : CacheEntry} (h : c.kept? key = some e) :
    e ∈ c.entries ∧ e.key = key := by
  have hkey := List.find?_some h
  exact ⟨List.mem_of_find?_eq_some h, by simpa using hkey⟩

theorem flight?_eq_none_iff {c : Cache} {key : CacheKey} :
    c.flight? key = none ↔ ∀ f ∈ c.flights, f.1 ≠ key := by
  simp [flight?, List.find?_eq_none]

theorem mem_of_flight? {c : Cache} {key : CacheKey} {n : Nat} (h : c.flight? key = some n) :
    (key, n) ∈ c.flights := by
  obtain ⟨f, hf, rfl⟩ := Option.map_eq_some_iff.mp h
  have hkey := List.find?_some hf
  have hmem := List.mem_of_find?_eq_some hf
  obtain rfl : f.1 = key := by simpa using hkey
  exact hmem

theorem isRegistered_iff {c : Cache} {key : CacheKey} {n : Nat} :
    c.isRegistered key n = true ↔ c.flight? key = some n := by
  simp [isRegistered]

/-- Either table has at most one row for a key, and no key is in both. -/
structure Consistent (c : Cache) : Prop where
  entries_nodup : (c.entries.map CacheEntry.key).Nodup
  flights_nodup : (c.flights.map Prod.fst).Nodup
  apart : ∀ e ∈ c.entries, ∀ f ∈ c.flights, e.key ≠ f.1

theorem Consistent.flight?_eq_some {c : Cache} (h : c.Consistent) {key : CacheKey} {n : Nat}
    (hmem : (key, n) ∈ c.flights) : c.flight? key = some n := by
  rw [flight?, find?_eq_some_of_nodup h.flights_nodup hmem]
  rfl

theorem Consistent.kept?_or_flight? {c : Cache} (h : c.Consistent) (key : CacheKey) :
    c.kept? key = none ∨ c.flight? key = none := by
  cases hk : c.kept? key with
  | none => exact .inl rfl
  | some e =>
    obtain ⟨he, rfl⟩ := mem_of_kept? hk
    exact .inr (flight?_eq_none_iff.mpr fun f hf heq => h.apart e he f hf heq.symm)

/-- A cache whose tables lost rows is still consistent. -/
theorem Consistent.sublist {c c' : Cache} (h : c.Consistent) (he : c'.entries.Sublist c.entries)
    (hf : c'.flights.Sublist c.flights) : c'.Consistent where
  entries_nodup := h.entries_nodup.sublist (he.map _)
  flights_nodup := h.flights_nodup.sublist (hf.map _)
  apart := fun e hmem f hmem' => h.apart e (he.subset hmem) f (hf.subset hmem')

/-- The most recently used entry may come from outside if its key is in neither
    table. -/
theorem Consistent.append_entry {c : Cache} (h : c.Consistent) {e : CacheEntry}
    (he : ∀ x ∈ c.entries, x.key ≠ e.key) (hf : ∀ f ∈ c.flights, f.1 ≠ e.key) :
    Consistent { c with entries := c.entries ++ [e] } where
  entries_nodup := by
    rw [List.map_append, List.nodup_append]
    refine ⟨h.entries_nodup, by simp, ?_⟩
    intro k hk l hl
    obtain ⟨x, hx, rfl⟩ := List.mem_map.mp hk
    obtain rfl := List.mem_singleton.mp hl
    exact he x hx
  flights_nodup := h.flights_nodup
  apart := by
    intro x hx f hmem
    rcases List.mem_append.mp hx with hx | hx
    · exact h.apart x hx f hmem
    · obtain rfl := List.mem_singleton.mp hx
      exact (hf f hmem).symm

theorem Consistent.append_flight {c : Cache} (h : c.Consistent) {key : CacheKey} {n : Nat}
    (he : ∀ x ∈ c.entries, x.key ≠ key) (hf : ∀ f ∈ c.flights, f.1 ≠ key) :
    Consistent { c with flights := c.flights ++ [(key, n)] } where
  entries_nodup := h.entries_nodup
  flights_nodup := by
    rw [List.map_append, List.nodup_append]
    refine ⟨h.flights_nodup, by simp, ?_⟩
    intro k hk l hl
    obtain ⟨f, hmem, rfl⟩ := List.mem_map.mp hk
    obtain rfl := List.mem_singleton.mp hl
    exact hf f hmem
  apart := by
    intro x hx f hmem
    rcases List.mem_append.mp hmem with hmem | hmem
    · exact h.apart x hx f hmem
    · obtain rfl := List.mem_singleton.mp hmem
      exact he x hx

/-! ### Requests -/

/-- Expiry takes away at most one entry and leaves all else alone but the count
    of evictions. -/
theorem expire_eq (c : Cache) (now : Moment) (key : CacheKey) :
    ∃ entries evictions, c.expire now key = { c with entries := entries, evictions := evictions } ∧
      entries.Sublist c.entries := by
  unfold expire
  split
  · split
    · exact ⟨_, _, rfl, List.filter_sublist⟩
    · exact ⟨_, _, rfl, List.Sublist.refl _⟩
  · exact ⟨_, _, rfl, List.Sublist.refl _⟩

@[simp]
theorem expire_flights (c : Cache) (now : Moment) (key : CacheKey) :
    (c.expire now key).flights = c.flights := by
  obtain ⟨entries, evictions, heq, -⟩ := c.expire_eq now key
  rw [heq]

/-- How often requests were met in each of the three ways. -/
def tally (c : Cache) : Nat × Nat × Nat := (c.hits, c.misses, c.coalesced)

theorem expire_tally (c : Cache) (now : Moment) (key : CacheKey) :
    (c.expire now key).tally = c.tally := by
  obtain ⟨entries, evictions, heq, -⟩ := c.expire_eq now key
  rw [heq]
  rfl

theorem kept?_expire_eq_none {c : Cache} {now : Moment} {key : CacheKey}
    (h : c.get? now key = none) : (c.expire now key).kept? key = none := by
  unfold get? at h
  unfold expire
  cases hkept : c.kept? key with
  | none => exact hkept
  | some e =>
    simp only [hkept] at h
    have hexpired : c.isExpired now e = true := by
      by_cases hexpired : c.isExpired now e
      · exact hexpired
      · rw [if_neg hexpired] at h
        cases h
    dsimp only
    rw [if_pos hexpired]
    exact kept?_dropEntry_self c key

/-- The three ways in which a request is met, with all that it changes. -/
theorem request_cases (c : Cache) (now : Moment) (key : CacheKey) :
    (∃ e ∈ c.entries, e.key = key ∧
      c.request now key = ({ c.refresh e with hits := c.hits + 1 }, .hit e.result)) ∨
    (c.get? now key = none ∧ ∃ n, c.flight? key = some n ∧
      c.request now key =
        ({ c.expire now key with coalesced := c.coalesced + 1 }, .joined n)) ∨
    (c.get? now key = none ∧ c.flight? key = none ∧
      c.request now key =
        ({ c.expire now key with
            misses := c.misses + 1
            flights := c.flights ++ [(key, c.misses)] },
          .started c.misses)) := by
  unfold request
  cases hget : c.get? now key with
  | some e =>
    have hkept : c.kept? key = some e := by
      unfold get? at hget
      split at hget
      · rename_i e' he'
        split at hget
        · cases hget
        · obtain rfl := Option.some.inj hget
          exact he'
      · cases hget
    obtain ⟨hmem, hkey⟩ := mem_of_kept? hkept
    exact .inl ⟨e, hmem, hkey, rfl⟩
  | none =>
    refine .inr ?_
    have htally := c.expire_tally now key
    simp only [tally, Prod.mk.injEq] at htally
    have hflight : (c.expire now key).flight? key = c.flight? key := by
      rw [flight?, flight?, expire_flights]
    dsimp only
    unfold board
    rw [hflight]
    cases hn : c.flight? key with
    | some n => exact .inl ⟨rfl, n, rfl, by simp [htally]⟩
    | none => exact .inr ⟨rfl, rfl, by simp [htally]⟩

/-- Making an entry the most recently used one keeps a cache consistent if no
    flight is registered for its key. -/
theorem Consistent.refresh {c : Cache} (h : c.Consistent) {e : CacheEntry}
    (hf : ∀ f ∈ c.flights, f.1 ≠ e.key) : (c.refresh e).Consistent := by
  have hdrop : (c.dropEntry e.key).Consistent :=
    h.sublist List.filter_sublist (List.Sublist.refl _)
  refine hdrop.append_entry ?_ hf
  intro x hx
  simpa using (List.mem_filter.mp hx).2

/-! ### Landings -/

/-- The three ways in which a flight lands, with all that it changes: its result
    is kept, it is registered but brings no result, or it is not registered. -/
theorem land_cases (c : Cache) (now : Moment) (key : CacheKey) (flight : Nat)
    (outcome : Attempt Result) :
    (∃ result evicted, outcome = .ok result ∧ c.flight? key = some flight ∧
      c.land now key flight outcome =
        ((c.refresh ⟨key, result, now⟩).trim.detach key, .stored evicted)) ∨
    (∃ failure, outcome = .error failure ∧ c.flight? key = some flight ∧
      c.land now key flight outcome = (c.detach key, .failed)) ∨
    (c.flight? key ≠ some flight ∧ ∃ landing, (∀ evicted, landing ≠ .stored evicted) ∧
      c.land now key flight outcome = (c, landing)) := by
  by_cases hreg : c.flight? key = some flight
  · have hregistered : c.isRegistered key flight = true := isRegistered_iff.mpr hreg
    cases outcome with
    | ok result => exact .inl ⟨result, _, rfl, hreg, by simp [land, hregistered, store]; rfl⟩
    | error failure =>
      exact .inr (.inl ⟨failure, rfl, hreg, by simp [land, hregistered]⟩)
  · have hnot : c.isRegistered key flight = false := by
      simpa [isRegistered] using hreg
    refine .inr (.inr ⟨hreg, ?_⟩)
    cases outcome with
    | ok result => exact ⟨.stale, by simp, by simp [land, hnot]⟩
    | error failure => exact ⟨.failed, by simp, by simp [land, hnot]⟩

theorem Consistent.detach {c : Cache} (h : c.Consistent) (key : CacheKey) :
    (c.detach key).Consistent :=
  h.sublist (List.Sublist.refl _) List.filter_sublist

/-- An entry may be stored for a key whose flight is not registered any more. -/
theorem Consistent.store {c : Cache} (h : c.Consistent) {e : CacheEntry}
    (hf : ∀ f ∈ c.flights, f.1 ≠ e.key) : (c.refresh e).trim.Consistent :=
  (h.refresh hf).sublist (List.drop_sublist _ _) (List.Sublist.refl _)

theorem mem_refresh {c : Cache} {e x : CacheEntry} :
    x ∈ (c.refresh e).entries ↔ x ∈ c.entries ∧ x.key ≠ e.key ∨ x = e := by
  simp [refresh, dropEntry]

theorem mem_of_mem_refresh {c : Cache} {e x : CacheEntry} (he : e ∈ c.entries)
    (hx : x ∈ (c.refresh e).entries) : x ∈ c.entries := by
  rcases mem_refresh.mp hx with ⟨hold, -⟩ | rfl
  · exact hold
  · exact he

theorem mem_of_mem_trim {c : Cache} {x : CacheEntry} (h : x ∈ c.trim.entries) : x ∈ c.entries :=
  List.mem_of_mem_drop h

/-! ### Dropping keys -/

/-- Drops the keys of a selection from both tables. -/
def dropWhere (c : Cache) (selected : CacheKey → Bool) : Cache :=
  { c with
    entries := c.entries.filter fun e => !selected e.key
    flights := c.flights.filter fun f => !selected f.1 }

theorem evict_eq (c : Cache) (key : CacheKey) : (c.evict key).1 = c.dropWhere (· == key) := by
  simp [evict, dropWhere, dropEntry, detach, bne]

theorem clear_eq (c : Cache) : c.clear = c.dropWhere fun _ => true := by
  simp [clear, dropWhere]

theorem Consistent.dropWhere {c : Cache} (h : c.Consistent) (selected : CacheKey → Bool) :
    (c.dropWhere selected).Consistent :=
  h.sublist List.filter_sublist List.filter_sublist

end Cache

end KeyFigures
