/-
  KeyFigures/Proofs/Cache/Landing.lean
  ====================================
  **Only a landing brings something new.**

  Without one a cache tells what it holds, or that its clock shows no time, and
  keeps at most what it held (`Recalls`).  A landing tells what the flight came
  to, and only a result is kept: a flight that fails takes its registration with
  it and leaves no entry (`Inv.land_failed`).
-/
import KeyFigures.Proofs.Cache.Reachable

namespace KeyFigures.TracedCache

open SharedCache (Event)

variable {ι : Type} [DecidableEq ι] {w w' : TracedCache ι} {d : Delivery ι}

/-! ### Without a landing -/

omit [DecidableEq ι] in
theorem Inv.start_unique (h : w.Inv) {n : Nat} {key key' : CacheKey} (hkey : (n, key) ∈ w.starts)
    (hkey' : (n, key') ∈ w.starts) : key = key' :=
  congrArg Prod.snd (List.inj_on_of_nodup_map h.starts_nodup hkey hkey' rfl)

/-- From one cache to the next something is told, but nothing new. -/
structure Recalls (w w' : TracedCache ι) (told : List (Delivery ι)) : Prop where
  told : ∀ d ∈ told, (∃ fault, d.outcome = .error (.time fault)) ∨
    ∃ x ∈ w.shared.cache.entries, x.key = d.key ∧ d.outcome = .ok x.result
  landings : w'.landings = w.landings
  entries : w'.shared.cache.entries ⊆ w.shared.cache.entries

omit [DecidableEq ι] in
theorem Recalls.trans {w'' : TracedCache ι} {told told' : List (Delivery ι)}
    (h : Recalls w w' told) (h' : Recalls w' w'' told') : Recalls w w'' (told ++ told') where
  told d hd := by
    rcases List.mem_append.mp hd with hd | hd
    · exact h.told d hd
    · rcases h'.told d hd with hfault | ⟨x, hx, hkey, houtcome⟩
      · exact .inl hfault
      · exact .inr ⟨x, h.entries hx, hkey, houtcome⟩
  landings := h'.landings.trans h.landings
  entries := List.Subset.trans h'.entries h.entries

theorem recalls_request (w : TracedCache ι) (caller : ι) (key : CacheKey) :
    Recalls w (w.step (.request caller key)).1 (w.step (.request caller key)).2 := by
  obtain ⟨entries, evictions, hexpire, hsub⟩ := w.shared.cache.expire_eq w.shared.time key
  rcases w.step_request caller key with
    ⟨fault, -, heq⟩ | ⟨-, x, hx, rfl, heq⟩ | ⟨-, n, -, heq⟩ | ⟨-, -, -, heq⟩ <;> rw [heq]
  · exact ⟨by simp, rfl, List.Subset.refl _⟩
  · refine ⟨?_, rfl, fun y hy => Cache.mem_of_mem_refresh hx hy⟩
    intro d hd
    obtain rfl := List.mem_singleton.mp hd
    exact .inr ⟨x, hx, rfl, rfl⟩
  · rw [hexpire]
    exact ⟨List.forall_mem_nil _, rfl, hsub.subset⟩
  · rw [hexpire]
    exact ⟨List.forall_mem_nil _, rfl, hsub.subset⟩

/-- Whatever happens but a landing. -/
theorem recalls_step {e : Event ι} (he : ∀ n x, e ≠ .land n x) :
    Recalls w (w.step e).1 (w.step e).2 := by
  have hdrop : ∀ d : Drop, Recalls w (w.step d.event).1 (w.step d.event).2 := by
    intro d
    rw [step_drop]
    exact ⟨List.forall_mem_nil _, rfl, fun _ hx => List.mem_of_mem_filter hx⟩
  cases e with
  | request caller key => exact w.recalls_request caller key
  | land n x => exact absurd rfl (he n x)
  | leave caller => exact ⟨List.forall_mem_nil _, rfl, List.Subset.refl _⟩
  | evict key => exact hdrop (.evict key)
  | invalidate entity year => exact hdrop (.invalidate entity year)
  | clear => exact hdrop .clear
  | clock now => exact ⟨List.forall_mem_nil _, rfl, List.Subset.refl _⟩

theorem recalls_run {es : List (Event ι)} (hes : ∀ n x, .land n x ∉ es) :
    Recalls w (w.run es).1 (w.run es).2 := by
  induction es generalizing w with
  | nil => exact ⟨List.forall_mem_nil _, rfl, List.Subset.refl _⟩
  | cons e es ih =>
    rw [run_cons]
    refine (recalls_step ?_).trans (ih fun n x hmem => hes n x (List.mem_cons_of_mem e hmem))
    rintro n x rfl
    exact hes n x List.mem_cons_self

/-! ### Landings -/

variable {n : Nat} {x : Attempt Result}

/-- A landing tells what the flight came to, unless the clock shows no time. -/
theorem Inv.land_told (h : w.Inv) (hd : d ∈ (w.step (.land n x)).2) :
    (d.outcome = x ∨ ∃ fault, d.outcome = .error (.time fault)) ∧ (n, d.key) ∈ w.starts := by
  obtain ⟨⟨y, hy, o, rfl, heq⟩, -, -⟩ := land_delivery hd
  have hkey : d.key = y.key := by rw [heq]
  refine ⟨?_, hkey ▸ h.started _ (h.waits y hy)⟩
  unfold TracedCache.step at hd
  dsimp only at hd
  split at hd
  · obtain ⟨z, -, rfl⟩ := List.mem_map.mp hd
    show w.shared.arrival _ x = x ∨ ∃ fault, w.shared.arrival _ x = .error (.time fault)
    unfold SharedCache.arrival
    split
    · split
      · exact .inr ⟨_, rfl⟩
      · exact .inl rfl
    · exact .inl rfl
  · cases hd

theorem landings_land {p : Nat × Attempt Result} (hp : p ∈ (w.step (.land n x)).1.landings) :
    p ∈ w.landings ∨ p = (n, x) := by
  cases hf : w.shared.flight? n with
  | none =>
    rw [step_land_none hf] at hp
    exact .inl hp
  | some f =>
    rcases step_land hf x with ⟨r, -, -, heq⟩ | ⟨failure, -, heq⟩ | ⟨-, heq⟩ <;>
      rw [heq] at hp <;> exact (List.mem_append.mp hp).imp_right List.mem_singleton.mp

/-- A landing adds at most the result of its flight to the entries. -/
theorem Inv.entries_land (h : w.Inv) {y : CacheEntry}
    (hy : y ∈ (w.step (.land n x)).1.shared.cache.entries) :
    y ∈ w.shared.cache.entries ∨ (x = .ok y.result ∧ (n, y.key) ∈ w.starts) := by
  cases hf : w.shared.flight? n with
  | none =>
    rw [step_land_none hf] at hy
    exact .inl hy
  | some f =>
    obtain ⟨hmem, rfl⟩ := SharedCache.mem_of_flight? hf
    rcases step_land hf x with ⟨r, rfl, -, heq⟩ | ⟨failure, -, heq⟩ | ⟨-, heq⟩ <;> rw [heq] at hy
    · rcases Cache.mem_refresh.mp (Cache.mem_of_mem_trim hy) with ⟨hold, -⟩ | rfl
      · exact .inl hold
      · exact .inr ⟨rfl, h.started _ (SharedCache.mem_routes hmem)⟩
    · exact .inl hy
    · exact .inl hy

/-- A flight that fails leaves no entry and no registration. -/
theorem Inv.land_failed (h : w.Inv) (n : Nat) (f : Failure) :
    let w' := (w.step (.land n (.error f))).1
    w'.shared.cache.entries = w.shared.cache.entries ∧
      w'.shared.cache.flights ⊆ w.shared.cache.flights ∧
      (∀ p ∈ w'.shared.cache.flights, p.2 ≠ n) ∧ w'.shared.flight? n = none := by
  intro w'
  obtain ⟨hentries, hflights, hgone⟩ : w'.shared.cache.entries = w.shared.cache.entries ∧
      w'.shared.cache.flights ⊆ w.shared.cache.flights ∧ w'.shared.flight? n = none := by
    cases hf : w.shared.flight? n with
    | none =>
      have hsame : w' = w := congrArg Prod.fst (step_land_none hf _)
      rw [hsame]
      exact ⟨rfl, List.Subset.refl _, hf⟩
    | some g =>
      obtain ⟨-, rfl⟩ := SharedCache.mem_of_flight? hf
      have hnone : (w.shared.flights.filter (·.number != g.number)).find?
          (·.number == g.number) = none := by
        rw [List.find?_filter]
        simp
      rcases step_land hf (.error f) with ⟨r, hr, -, -⟩ | ⟨failure, -, heq⟩ | ⟨-, heq⟩
      · cases hr
      · have hw' := congrArg (fun p => p.1.shared) heq
        rw [show w'.shared = _ from hw']
        exact ⟨rfl, fun _ hp => List.mem_of_mem_filter hp, hnone⟩
      · have hw' := congrArg (fun p => p.1.shared) heq
        rw [show w'.shared = _ from hw']
        exact ⟨rfl, List.Subset.refl _, hnone⟩
  refine ⟨hentries, hflights, fun p hp hn => ?_, hgone⟩
  -- what is registered is under way
  have hroute := (h.step (.land n (.error f))).registered p hp
  obtain ⟨g, hg, -, -⟩ := SharedCache.flight?_of_route (h.step _).routes_nodup hroute
  rw [hn] at hg
  exact Option.some_ne_none g (hg.symm.trans hgone)

/-- If it was registered, nothing is known of its key any more. -/
theorem Inv.land_failed_registered (h : w.Inv) {key : CacheKey} {n : Nat}
    (hreg : w.shared.cache.flight? key = some n) (f : Failure) :
    let w' := (w.step (.land n (.error f))).1
    (∀ x ∈ w'.shared.cache.entries, x.key ≠ key) ∧ w'.shared.cache.flight? key = none := by
  intro w'
  obtain ⟨hentries, hflights, hnumbers, -⟩ := h.land_failed n f
  refine ⟨?_, Cache.flight?_eq_none_iff.mpr fun p hp hkey => hnumbers p hp ?_⟩
  · rw [hentries]
    refine Cache.kept?_eq_none_iff.mp ((h.consistent.kept?_or_flight? key).resolve_right ?_)
    rw [hreg]
    exact Option.some_ne_none n
  · have hold : (key, p.2) ∈ w.shared.cache.flights := hkey ▸ hflights hp
    exact Option.some.inj ((h.consistent.flight?_eq_some hold).symm.trans hreg)

end KeyFigures.TracedCache
