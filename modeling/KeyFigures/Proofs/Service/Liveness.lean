/-
  KeyFigures/Proofs/Service/Liveness.lean
  =======================================
  **Every turn closes the gap that it leaves.**

  Performing a turn that was taken out makes up for it: the task that it moved
  has another turn, waits for a flight, was split into parts or has ended
  (`Service.Live.perform`).  So when no turn is left, the call has ended
  (`Service.Live.exists_ending`).
-/
import KeyFigures.Proofs.Service.Progress

namespace KeyFigures.Service

open Log.Recorded (KeepsSetup)

variable {w : Surroundings} {h : History} {s : Service} {t : Task} {awaited : String → Prop}
  {turn : Turn}

/-- A turn about a task has been performed. -/
theorem Live.closeTask (hl : s.Live awaited (some turn)) {n : Nat} (hturn : turn.subject? = some n)
    (hdue : ∀ t ∈ s.tasks, t.number = n → s.Due t) : s.Live awaited none := by
  refine hl.close (fun name => ?_) fun t ht heq =>
    hdue t ht (Option.some.inj (heq.symm.trans hturn))
  cases turn <;> first | rfl | cases hturn

/-! ### Looking up -/

theorem Sound.fresh_flight (hs : s.Sound w h) : s.cache.cache.misses ∉ s.aloft := by
  intro hmem
  obtain ⟨f, hf, heq⟩ := List.mem_map.mp hmem
  have hlt := (List.getElem?_eq_some_iff.mp (hs.cache.flights f hf).route).1
  rw [heq, hs.cache.misses] at hlt
  exact lt_irrefl _ hlt

/-- The cache may change as long as nobody who waits is forgotten. -/
theorem Live.withCache {gap : Option Turn} (hl : s.Live awaited gap) {cache : SharedCache Nat}
    (haloft : cache.flights.map (·.number) = s.aloft)
    (hregistered : cache.cache.flights.Sublist s.cache.cache.flights)
    (hwaits : ∀ f ∈ s.cache.flights, ∀ n ∈ f.waiting, ∃ f ∈ cache.flights, n ∈ f.waiting) :
    Live awaited gap { s with cache := cache } :=
  have hmem : ∀ {n}, n ∈ aloft { s with cache := cache } → n ∈ s.aloft := fun hn => haloft ▸ hn
  { hl with
    computed := fun n hn => hl.computed n (hmem hn)
    numbers := by
      show (cache.flights.map (·.number)).Nodup
      rw [haloft]
      exact hl.numbers
    registered := by
      intro r hr
      show r.2 ∈ cache.flights.map (·.number)
      rw [haloft]
      exact hl.registered r (hregistered.subset hr)
    routes := hl.routes.sublist (hregistered.map _)
    due := fun u hu => (hl.due u hu).imp_right fun hdue => hdue.mono (List.Subset.refl _)
      (fun f hf hm => .inl (hwaits f hf _ hm)) fun _ => Nat.le_refl _ }

/-- Someone joins a flight. -/
theorem Live.join (hl : s.Live awaited (some turn)) (ht : turn.subject? = some t.number)
    (cache : Cache) {n : Nat} (hcache : cache.flights = s.cache.cache.flights) (hn : n ∈ s.aloft) :
    Live awaited none { s with cache := { s.cache with
      cache := cache
      flights := s.cache.flights.map fun f =>
        if f.number = n then { f with waiting := f.waiting ++ [t.number] } else f } } := by
  have hjoined : Live awaited (some turn) { s with cache := { s.cache with
      cache := cache
      flights := s.cache.flights.map fun f =>
        if f.number = n then { f with waiting := f.waiting ++ [t.number] } else f } } := by
    refine hl.withCache ?_ (hcache ▸ .refl _) fun f hf m hm =>
      ⟨_, List.mem_map_of_mem hf, ?_⟩
    · rw [List.map_map]
      refine List.map_congr_left fun f _ => ?_
      dsimp only [Function.comp]
      split <;> rfl
    · split
      · exact List.mem_append_left _ hm
      · exact hm
  refine hjoined.closeTask ht fun u _ hut => .inr (.inl ?_)
  obtain ⟨f, hf, rfl⟩ := List.mem_map.mp hn
  refine ⟨_, List.mem_map_of_mem hf, ?_⟩
  rw [hut, if_pos rfl]
  exact List.mem_append_right _ List.mem_cons_self

/-- Someone starts a flight. -/
theorem Live.depart (hl : s.Live awaited (some turn)) (ht : turn.subject? = some t.number)
    (cache : Cache) {key : CacheKey} {n : Nat} {c : Computation}
    (hcache : cache.flights = s.cache.cache.flights ++ [(key, n)]) (hn : n ∉ s.aloft)
    (hkey : s.cache.cache.flight? key = none) (hc : c.flight = n) :
    Live awaited none { s with
      cache := { s.cache with
        cache := cache
        flights := s.cache.flights ++ [⟨n, key, [t.number]⟩] }
      computations := s.computations ++ [c]
      ready := s.ready ++ [.takeOff n] } := by
  obtain ⟨s', hs'⟩ : ∃ s' : Service, s' = { s with
      cache := { s.cache with
        cache := cache
        flights := s.cache.flights ++ [⟨n, key, [t.number]⟩] }
      computations := s.computations ++ [c]
      ready := s.ready ++ [.takeOff n] } := ⟨_, rfl⟩
  rw [← hs']
  have haloft : s'.aloft = s.aloft ++ [n] := by
    rw [hs']
    exact List.map_append
  have hready : s'.ready = s.ready ++ [.takeOff n] := by rw [hs']
  have hsub : s.ready ⊆ s'.ready := hready ▸ List.subset_append_left _ _
  have hflights : s'.cache.flights = s.cache.flights ++ [⟨n, key, [t.number]⟩] := by rw [hs']
  have hmore : s'.cache.cache.flights = s.cache.cache.flights ++ [(key, n)] := by
    rw [hs', ← hcache]
  have hdeparted : s'.Live awaited (some turn) := {
    computed := by
      intro m hm
      rw [haloft] at hm
      have hmore : s'.computations = s.computations ++ [c] := by rw [hs']
      rw [hmore]
      rcases List.mem_append.mp hm with hm | hm
      · obtain ⟨d, hd, heq⟩ := hl.computed m hm
        exact ⟨d, List.mem_append_left _ hd, heq⟩
      · exact ⟨c, List.mem_append_right _ List.mem_cons_self,
          hc.trans (List.mem_singleton.mp hm).symm⟩
    numbers := by
      rw [haloft, List.nodup_append]
      refine ⟨hl.numbers, List.nodup_singleton n, ?_⟩
      rintro m hm _ hn' rfl
      exact hn (List.mem_singleton.mp hn' ▸ hm)
    registered := by
      intro r hr
      rw [hmore] at hr
      rw [haloft]
      rcases List.mem_append.mp hr with hr | hr
      · exact List.mem_append_left _ (hl.registered r hr)
      · obtain rfl := List.mem_singleton.mp hr
        exact List.mem_append_right _ List.mem_cons_self
    routes := by
      rw [hmore, List.map_append, List.nodup_append]
      refine ⟨hl.routes, List.nodup_singleton key, ?_⟩
      rintro k hk _ hk' rfl
      obtain ⟨r, hr, rfl⟩ := List.mem_map.mp hk
      exact Cache.flight?_eq_none_iff.mp hkey r hr (List.mem_singleton.mp hk')
    due := by
      intro u hu
      rw [show s'.tasks = s.tasks by rw [hs']] at hu
      refine (hl.due u hu).imp_right fun hdue => hdue.mono hsub
        (fun f hf hm => .inl ⟨f, hflights ▸ List.mem_append_left _ hf, hm⟩) fun place => ?_
      rw [hs']
      unfold held
      simp only [List.countP_append]
      omega
    under := by
      intro name hname
      rcases hl.under name hname with ⟨x, hx, hcall⟩ | hunder
      · exact .inl ⟨x, hx.imp_right fun hx => hsub hx, hcall⟩
      · rw [hs']
        exact .inr hunder }
  refine hdeparted.closeTask ht fun u _ hut => .inr (.inl ?_)
  rw [hflights]
  exact ⟨_, List.mem_append_right _ List.mem_cons_self, by rw [hut]; exact List.mem_cons_self⟩

theorem Live.request {entity year : Value} {key : CacheKey} (hl : s.Live awaited (some turn))
    (hs : s.Sound w h) (ht : t ∈ s.tasks) (hturn : turn.subject? = some t.number) :
    (s.request t entity year key).Live awaited none := by
  have hfresh := hs.fresh_flight
  unfold Service.request SharedCache.request
  rcases s.cache.cache.request_cases s.cache.time key with
    ⟨e, -, rfl, heq⟩ | ⟨-, n, hflight, heq⟩ | ⟨-, hnone, heq⟩
  · rw [heq]
    refine Live.conclude (?_ : Live awaited (some turn) _) hs.numbers ht hturn nofun
    exact { hl with }
  · rw [heq]
    obtain ⟨entries, evictions, hexpire, -⟩ := s.cache.cache.expire_eq s.cache.time key
    have hjoined := hl.join hturn { s.cache.cache.expire s.cache.time key with
      coalesced := s.cache.cache.coalesced + 1 } (by rw [hexpire])
      (hl.registered _ (Cache.mem_of_flight? hflight))
    exact { hjoined with }
  · rw [heq]
    have hdeparted := hl.depart hturn { s.cache.cache.expire s.cache.time key with
      misses := s.cache.cache.misses + 1
      flights := s.cache.cache.flights ++ [(key, s.cache.cache.misses)] }
      (c := ⟨s.cache.cache.misses, entity, year, t.version, key, t.formula, t.context⟩)
      rfl hfresh hnone rfl
    exact { hdeparted with }

/-! ### Beginning -/

theorem Live.lookUp {entity year : Value} (hl : s.Live awaited (some turn)) (hs : s.Sound w h)
    (ht : t ∈ s.tasks) (hturn : turn.subject? = some t.number) :
    (s.lookUp t entity year).Live awaited none := by
  unfold Service.lookUp
  split
  · exact hl.conclude hs.numbers ht hturn nofun
  · split
    · exact hl.conclude hs.numbers ht hturn nofun
    · exact hl.request hs ht hturn

/-- A task that is split waits for its parts, and each of them begins. -/
theorem Live.spawn (hl : s.Live awaited (some turn)) (hs : s.Sound w h) (ht : t ∈ s.tasks)
    (hturn : turn.subject? = some t.number) (hparts : t.job.parts ≠ [])
    (hresults : t.results = []) : (s.spawn t).Live awaited none := by
  have hready : s.ready ⊆ (s.spawn t).ready := List.subset_append_left _ _
  have htasks : ∀ u, u ∈ (s.spawn t).tasks → u ∈ s.tasks ∨ .begin u.number ∈ (s.spawn t).ready := by
    intro u hu
    rcases List.mem_append.mp hu with hu | hu
    · exact .inl hu
    · exact .inr (List.mem_append_right _ (List.mem_map.mpr ⟨u, hu, rfl⟩))
  have hheld : ∀ n place, s.held n place ≤ (s.spawn t).held n place := by
    intro n place
    unfold held Service.spawn
    simp only [List.countP_append, List.map_append, List.sum_append]
    omega
  -- the part in a place stands for itself
  have hplaces : ∀ place < t.job.parts.length, 1 ≤ (s.spawn t).held t.number place := by
    intro place hplace
    obtain ⟨u, hu, howner⟩ : ∃ u ∈ (s.spawn t).tasks, u.owner = .task t.number place :=
      ⟨_, List.mem_append_right _ (List.mem_map_of_mem
        (List.mk_mem_zipIdx_iff_getElem?.mpr (List.getElem?_eq_getElem hplace))), rfl⟩
    have hself : 1 ≤ u.holds t.number place := by
      unfold Task.holds
      simp [howner]
    have hsum : u.holds t.number place ≤ ((s.spawn t).tasks.map (·.holds t.number place)).sum :=
      List.single_le_sum (by simp) _ (List.mem_map_of_mem hu)
    unfold held
    omega
  have hspawned : (s.spawn t).Live awaited (some turn) := { hl with
    due := by
      intro u hu
      rcases htasks u hu with hu | hbegin
      · exact (hl.due u hu).imp_right fun hdue => hdue.mono hready
          (fun f hf hm => .inl ⟨f, hf, hm⟩) (hheld u.number)
      · exact .inr (.inl ⟨_, hbegin, by simp [Turn.moves]⟩)
    under := by
      intro name hname
      rcases hl.under name hname with ⟨x, hx, hcall⟩ | ⟨u, hu, hof⟩ | hending
      · exact .inl ⟨x, hx.imp_right fun hx => hready hx, hcall⟩
      · exact .inr (.inl ⟨u, List.mem_append_left _ hu, hof⟩)
      · exact .inr (.inr hending) }
  refine hspawned.closeTask hturn fun u hu hut => ?_
  rcases htasks u hu with hu | hbegin
  · obtain rfl := List.inj_on_of_nodup_map hs.numbers hu ht hut
    refine .inr (.inr ⟨?_, hplaces⟩)
    rw [hresults]
    exact List.length_pos_of_ne_nil hparts
  · exact .inl ⟨_, hbegin, by simp [Turn.moves]⟩

/-- A task that nothing stands for has no results. -/
theorem results_eq_nil (ht : t ∈ s.tasks) (hfree : ∀ place, s.held t.number place = 0) :
    t.results = [] := by
  rw [List.eq_nil_iff_forall_not_mem]
  intro r hr
  have hself : 1 ≤ t.holds t.number r.1 := by
    have hcount : 0 < t.results.countP (·.1 == r.1) :=
      List.countP_pos_iff.mpr ⟨r, hr, by simp⟩
    unfold Task.holds
    rw [if_pos rfl]
    omega
  have hsum : t.holds t.number r.1 ≤ (s.tasks.map (·.holds t.number r.1)).sum :=
    List.single_le_sum (by simp) _ (List.mem_map_of_mem ht)
  have hzero := hfree r.1
  unfold held at hzero
  omega

theorem Live.begin (hl : s.Live awaited (some turn)) (hs : s.Sound w h) (ht : t ∈ s.tasks)
    (hturn : turn.subject? = some t.number) (hfree : ∀ place, s.held t.number place = 0) :
    (s.begin t).Live awaited none := by
  unfold Service.begin
  cases hcheck : t.job.check with
  | error f => exact hl.conclude hs.numbers ht hturn nofun
  | ok u =>
    dsimp only
    split
    · exact hl.lookUp hs ht hturn
    · rename_i hjob
      have hcomposite : t.job.isComposite := by
        unfold Job.isComposite
        split
        · rename_i heq
          exact absurd heq (hjob _ _)
        · rfl
      exact hl.spawn hs ht hturn (Job.parts_ne_nil hcomposite hcheck) (results_eq_nil ht hfree)

/-! ### Taking up a call -/

theorem Live.finish {gap : Option Turn} (hl : s.Live awaited gap) (caller : String)
    (x : Attempt Response) (context : Log.Context) :
    (s.finish caller x context).Live awaited gap :=
  { hl with
    under := by
      intro name hname
      rcases hl.under name hname with hturn | htask | ⟨e, he, heq⟩
      · exact .inl hturn
      · exact .inr (.inl htask)
      · exact .inr (.inr ⟨e, List.mem_append_left _ he, heq⟩) }

theorem Live.takeUp {c : Call} (hl : s.Live awaited (some (.call c))) (hs : s.Sound w h)
    (hc : w.taken c s.registry) : (s.takeUp c).Live awaited none := by
  have hdue : ∀ u ∈ s.tasks, s.Due u := fun u hu => (hl.due u hu).resolve_left nofun
  rw [takeUp_eq]
  cases hprepared : s.registry.prepare c with
  | error f =>
    refine { hl with due := ?_, under := fun name hname => ?_ }
    · exact fun u hu => .inr (hdue u hu)
    · rcases hl.under name hname with ⟨x, hx | hx, hcall⟩ | hunder | ⟨e, he, heq⟩
      · obtain rfl := Option.some.inj hx
        exact .inr (.inr ⟨_, List.mem_append_right _ List.mem_cons_self,
          by simpa [Turn.isCallOf] using hcall⟩)
      · exact .inl ⟨x, .inr hx, hcall⟩
      · exact .inr (.inl hunder)
      · exact .inr (.inr ⟨e, List.mem_append_left _ he, heq⟩)
  | ok prepared =>
    obtain ⟨f, job⟩ := prepared
    obtain ⟨h', henrolled, hfree⟩ := hs.enrol hc hprepared
    have htask : s.taskOf c f job ∈ (s.enrol c f job).tasks :=
      List.mem_append_right _ List.mem_cons_self
    refine Live.begin (?_ : Live awaited (some (.begin s.nextTask)) _) henrolled htask rfl hfree
    refine { hl with due := ?_, under := fun name hname => ?_ }
    · intro u hu
      rcases List.mem_append.mp hu with hu | hu
      · refine .inr ((hdue u hu).mono (List.Subset.refl _) (fun f hf hm => .inl ⟨f, hf, hm⟩)
          fun place => ?_)
        unfold enrol
        rw [held_append]
        exact Nat.le_add_right _ _
      · obtain rfl := List.mem_singleton.mp hu
        exact .inl rfl
    · rcases hl.under name hname with ⟨x, hx | hx, hcall⟩ | ⟨u, hu, hof⟩ | hending
      · obtain rfl := Option.some.inj hx
        exact .inr (.inl ⟨_, htask, hcall⟩)
      · exact .inl ⟨x, .inr hx, hcall⟩
      · exact .inr (.inl ⟨u, List.mem_append_left _ hu, hof⟩)
      · exact .inr (.inr hending)

/-! ### Parts -/

theorem sum_add_le_sum {f g : Task → Nat} {k : Nat} {tasks : List Task} (ht : t ∈ tasks)
    (hle : ∀ u ∈ tasks, f u ≤ g u) (hself : f t + k ≤ g t) :
    (tasks.map f).sum + k ≤ (tasks.map g).sum := by
  induction tasks with
  | nil => cases ht
  | cons u tasks ih =>
    have hrest : (tasks.map f).sum ≤ (tasks.map g).sum :=
      List.sum_le_sum fun v hv => hle v (List.mem_cons_of_mem u hv)
    simp only [List.map_cons, List.sum_cons]
    rcases List.mem_cons.mp ht with rfl | ht
    · omega
    · have hmore := ih ht fun v hv => hle v (List.mem_cons_of_mem u hv)
      have hhead := hle u List.mem_cons_self
      omega

/-- A task that is replaced by one that stands for a part more counts more. -/
theorem held_update {u : Task} {k n place : Nat} (hnumbers : (s.tasks.map (·.number)).Nodup)
    (ht : t ∈ s.tasks) (hnumber : u.number = t.number)
    (hholds : t.holds n place + k ≤ u.holds n place) :
    s.held n place + k ≤ held { s with
      tasks := s.tasks.map fun v => if v.number = u.number then u else v } n place := by
  have hsum : (s.tasks.map (·.holds n place)).sum + k ≤
      ((s.tasks.map fun v => if v.number = u.number then u else v).map (·.holds n place)).sum := by
    rw [List.map_map]
    refine sum_add_le_sum ht (fun v hv => ?_) ?_
    · dsimp only [Function.comp]
      split
      · rename_i heq
        rw [List.inj_on_of_nodup_map hnumbers hv ht (heq.trans hnumber)]
        omega
      · exact Nat.le_refl _
    · dsimp only [Function.comp]
      rwa [if_pos hnumber.symm]
  unfold held
  dsimp only
  omega

/-- A task may be replaced by one that stands for no fewer parts. -/
theorem Live.update {gap : Option Turn} {u : Task} (hl : s.Live awaited gap)
    (hnumbers : (s.tasks.map (·.number)).Nodup) (ht : t ∈ s.tasks) (hnumber : u.number = t.number)
    (howner : u.owner = t.owner) (hholds : ∀ n place, t.holds n place ≤ u.holds n place)
    (hturn : gap.bind Turn.subject? = some t.number) :
    Live awaited gap { s with
      tasks := s.tasks.map fun v => if v.number = u.number then u else v } := by
  refine { hl with due := ?_, under := fun name hname => ?_ }
  · intro v hv
    rcases mem_update hv with rfl | ⟨hv, -⟩
    · exact .inl (hnumber ▸ hturn)
    · exact (hl.due v hv).imp_right fun hdue => hdue.mono (List.Subset.refl _)
        (fun f hf hm => .inl ⟨f, hf, hm⟩) fun place =>
          held_update (k := 0) hnumbers ht hnumber (hholds v.number place)
  · rcases hl.under name hname with hturn | ⟨v, hv, hof⟩ | hending
    · exact .inl hturn
    · refine .inr (.inl ⟨_, List.mem_map_of_mem hv, ?_⟩)
      split
      · rename_i heq
        obtain rfl := List.inj_on_of_nodup_map hnumbers hv ht (heq.trans hnumber)
        unfold Task.isOf at hof ⊢
        rwa [howner]
      · exact hof
    · exact .inr (.inr hending)

/-- A part that is reported is collected; the task goes on, or still waits for
    other parts. -/
theorem Live.collect {place : Nat} {x : Attempt Result}
    (hl : Live awaited none { s with ready := .report t.number place x :: s.ready })
    (hs : s.Sound w h) (ht : t ∈ s.tasks) : (s.collect t place x).Live awaited none := by
  have hgap := hl.takeOut
  have hdue := (hl.due t ht).resolve_left nofun
  unfold Service.collect
  cases x with
  | error f =>
    refine (hgap.enqueue [.wake t.number (some f)]).closeTask rfl fun u _ hut => .inl ?_
    exact ⟨_, List.mem_append_right _ List.mem_cons_self, by simp [Turn.moves, hut]⟩
  | ok r =>
    have hholds : ∀ n p, t.holds n p +
        (if (Turn.report t.number place (.ok r)).holds n p then 1 else 0) ≤
        { t with results := t.results ++ [(place, r)] }.holds n p := by
      intro n p
      unfold Task.holds
      by_cases hn : t.number = n <;> by_cases hplace : place = p <;>
        simp [Turn.holds, hn, hplace, List.countP_append]
    have hcollected := hgap.update (u := { t with results := t.results ++ [(place, r)] }) hs.numbers
      ht rfl rfl (fun n p => (Nat.le_add_right _ _).trans (hholds n p)) rfl
    dsimp only
    split
    · refine (hcollected.enqueue [.wake t.number none]).closeTask rfl fun u _ hut => .inl ?_
      exact ⟨_, List.mem_append_right _ List.mem_cons_self, by simp [Turn.moves, hut]⟩
    · rename_i hopen
      refine hcollected.closeTask rfl fun u hu hut => ?_
      obtain rfl : u = { t with results := t.results ++ [(place, r)] } :=
        (mem_update hu).resolve_right fun hold => hold.2 hut
      rcases hdue with ⟨turn, hturn, hmoves⟩ | hflight | ⟨hless, hparts⟩
      · refine .inl ⟨turn, (List.mem_cons.mp hturn).resolve_left ?_, hmoves⟩
        rintro rfl
        cases hmoves
      · exact .inr (.inl hflight)
      · refine .inr (.inr ⟨?_, fun p hp => ?_⟩)
        · have hne : t.results.length + 1 ≠ t.job.parts.length := by
            simpa [Task.isComplete] using hopen
          simp only [List.length_append, List.length_cons, List.length_nil]
          omega
        · -- the report of the place has become its result
          have hheld := hparts p hp
          have hupdated := held_update (u := { t with results := t.results ++ [(place, r)] })
            hs.numbers ht rfl (hholds t.number p)
          unfold held at hheld hupdated ⊢
          simp only [List.countP_cons] at hheld
          dsimp only at hheld hupdated ⊢
          omega

theorem Sound.isFigure_of_part (hs : s.Sound w h) (ht : t ∈ s.tasks) {n place : Nat}
    (howner : t.owner = .task n place) : ∃ g, t.job = .figure g := by
  have hsound : t.owner.Sound w h t.errand :=
    (hs.history _ (List.mem_of_getElem? (hs.tasks t ht).errand_eq)).owner
  rw [howner] at hsound
  obtain ⟨b, g, -, -, -, hjob⟩ := hsound
  exact ⟨g, hjob⟩

/-- After its parts a task ends. -/
theorem Live.goOn {failure : Option Failure} (hl : s.Live awaited (some turn)) (hs : s.Sound w h)
    (ht : t ∈ s.tasks) (hturn : turn.subject? = some t.number) :
    (s.goOn t failure).Live awaited none := by
  cases failure with
  | some f =>
    have habandoned := hs.abandon (s.within t.number)
    exact (hl.abandon hs hturn).conclude habandoned.numbers (hs.mem_abandon ht) hturn nofun
  | none =>
    have houtcome := hs.record_eq t.context t.steady_respond
    have hfigure : ∀ n place, t.owner = .task n place →
        ∀ points, (s.record t.context t.respond).1 ≠ .ok (.series points) := by
      intro n place howner points
      obtain ⟨g, hjob⟩ := hs.isFigure_of_part ht howner
      rw [houtcome, hjob]
      cases g with
      | single entity year => nofun
      | sum entities year =>
        unfold Job.combine
        cases Aggregate.summed t.formula.kind t.ordered <;> nofun
    have hrecorded : Live awaited (some turn) (s.record t.context t.respond).2 := { hl with }
    exact hrecorded.conclude hs.numbers ht hturn hfigure

/-! ### Flights -/

theorem Sound.route_eq (hs : s.Sound w h) {f : Flight Nat} (hf : f ∈ s.cache.flights)
    {r : CacheKey × Nat} (hr : r ∈ s.cache.cache.flights) (hnumber : r.2 = f.number) :
    r.1 = f.key := by
  have hroute := hs.cache.registered r hr
  rw [hnumber, (hs.cache.flights f hf).route] at hroute
  exact (Option.some.inj hroute).symm

/-- Landing takes the registration of the flight away, if there is one. -/
theorem flights_land {c : SharedCache Nat} {f : Flight Nat} (x : Attempt Result)
    (hroutes : (c.cache.flights.map (·.1)).Nodup)
    (hkey : ∀ r ∈ c.cache.flights, r.2 = f.number → r.1 = f.key) :
    (c.land f x).1.cache.flights.Sublist c.cache.flights ∧
      ∀ r ∈ (c.land f x).1.cache.flights, r.2 ≠ f.number := by
  have hdetach : ∀ r ∈ c.cache.flights.filter (·.1 != f.key), r.2 ≠ f.number := by
    intro r hr heq
    obtain ⟨hr, hne⟩ := List.mem_filter.mp hr
    exact absurd (hkey r hr heq) (by simpa using hne)
  unfold SharedCache.land
  rcases c.cache.land_cases c.time f.key f.number x with
    ⟨r, evicted, -, -, heq⟩ | ⟨failure, -, -, heq⟩ | ⟨hnot, landing, -, heq⟩
  · rw [heq]
    exact ⟨List.filter_sublist, hdetach⟩
  · rw [heq]
    exact ⟨List.filter_sublist, hdetach⟩
  · rw [heq]
    refine ⟨.refl _, fun r hr hnumber => hnot ?_⟩
    have hfind := find?_eq_some_of_nodup hroutes hr
    unfold Cache.flight?
    rw [← hkey r hr hnumber, hfind, ← hnumber]
    rfl

/-- A flight lands and its outcome is handed to those who wait. -/
theorem Live.land {c : Computation} {x : Attempt Result} (hl : s.Live awaited (some turn))
    (hs : s.Sound w h) (hturn : turn.subject? = none) (hcall : ∀ name, turn.isCallOf name = false) :
    (s.land c x).Live awaited none := by
  have hnone : ∀ u : Task, turn.subject? ≠ some u.number := by
    rw [hturn]
    nofun
  have hcomputed : ∀ n ∈ s.aloft, n ≠ c.flight →
      ∃ d ∈ s.computations.filter (·.flight != c.flight), d.flight = n := by
    intro n hn hne
    obtain ⟨d, hd, rfl⟩ := hl.computed n hn
    exact ⟨d, List.mem_filter.mpr ⟨hd, by simpa using hne⟩, rfl⟩
  unfold Service.land
  dsimp only
  cases hfind : s.cache.flight? c.flight with
  | none =>
    have hne : ∀ n ∈ s.aloft, n ≠ c.flight := by
      rintro n hn rfl
      obtain ⟨f, hf, heq⟩ := List.mem_map.mp hn
      exact absurd (List.find?_eq_none.mp hfind f hf) (by simpa using heq)
    have hclosed : s.Live awaited none := hl.close hcall fun u _ hu => absurd hu (hnone u)
    exact { hclosed with computed := fun n hn => hcomputed n hn (hne n hn) }
  | some f =>
    obtain ⟨hf, hnumber⟩ := SharedCache.mem_of_flight? hfind
    dsimp only
    have hland := flights_land (s.cache.arrival f x) hl.routes fun r hr => hs.route_eq hf hr
    have haloft : ∀ n, n ∈ ((s.cache.flights.filter (·.number != f.number)).map (·.number)) ↔
        n ∈ s.aloft ∧ n ≠ c.flight := by
      intro n
      unfold aloft
      simp only [List.mem_map, List.mem_filter, bne_iff_ne, hnumber]
      constructor
      · rintro ⟨g, ⟨hg, hne⟩, rfl⟩
        exact ⟨⟨g, hg, rfl⟩, hne⟩
      · rintro ⟨⟨g, hg, rfl⟩, hne⟩
        exact ⟨g, ⟨hg, hne⟩, rfl⟩
    refine Live.close (?_ : Live awaited (some turn) _) hcall fun u _ hu => absurd hu (hnone u)
    refine { hl with
      computed := ?_, numbers := ?_, registered := ?_, routes := ?_
      due := ?_, under := fun name hname => ?_ }
    · intro n hn
      obtain ⟨hn, hne⟩ := (haloft n).mp hn
      exact hcomputed n hn hne
    · exact hl.numbers.sublist (List.filter_sublist.map _)
    · intro r hr
      refine (haloft r.2).mpr ⟨hl.registered r (hland.1.subset hr), ?_⟩
      rw [← hnumber]
      exact hland.2 r hr
    · exact hl.routes.sublist (hland.1.map _)
    · intro u hu
      refine (hl.due u hu).imp_right fun hdue => hdue.mono (List.subset_append_left _ _)
        (fun g hg hm => ?_) (held_le_enqueue (s := s) _ u.number)
      by_cases hgf : g.number = f.number
      · obtain rfl := List.inj_on_of_nodup_map hl.numbers hg hf hgf
        exact .inr ⟨.deliver u.number _, List.mem_append_right _ (List.mem_map_of_mem hm),
          by simp [Turn.moves]⟩
      · exact .inl ⟨g, List.mem_filter.mpr ⟨hg, by simpa using hgf⟩, hm⟩
    · rcases hl.under name hname with ⟨y, hy, hy'⟩ | hunder
      · exact .inl ⟨y, hy.imp_right fun hready => List.mem_append_left _ hready, hy'⟩
      · exact .inr hunder

/-- Who has which slot does not matter, as long as whoever is granted one goes
    on. -/
theorem Live.withSlots {gap : Option Turn} (hl : s.Live awaited gap) (slots : Slots)
    (next : Option Nat) :
    ({ s with slots := slots }.enqueue (next.map Turn.granted).toList).Live awaited gap := by
  have hslots : Live awaited gap { s with slots := slots } := { hl with }
  exact hslots.enqueue _

theorem Live.releaseSlot {gap : Option Turn} (hl : s.Live awaited gap) :
    s.releaseSlot.Live awaited gap :=
  hl.withSlots s.slots.release.1 s.slots.release.2

/-- A flight is computed and lands. -/
theorem Live.compute {c : Computation} (hl : s.Live awaited (some turn)) (hs : s.Sound w h)
    (hturn : turn.subject? = none) (hcall : ∀ name, turn.isCallOf name = false) :
    (s.compute c).Live awaited none := by
  have hcounted : { s with fetches := s.fetches + 1 }.Sound w h := { hs with }
  have hfetched := hcounted.record c.bound
    (s.source.steady_fetch c.entity c.year c.version).keepsSetup
  have hreleased := hfetched.releaseSlot
  have hlive : Live awaited (some turn) ({ s with fetches := s.fetches + 1 }.record c.bound
      (s.source.fetch c.entity c.year c.version)).2.releaseSlot :=
    Live.releaseSlot { hl with }
  unfold Service.compute
  dsimp only
  split
  · exact hlive.land hreleased hturn hcall
  · rename_i ledger _
    have hrecorded := hreleased.record c.bound (steady_evaluation c ledger).keepsSetup
    refine Live.land ?_ hrecorded hturn hcall
    exact { hlive with }

/-- A fetch is done at once, or waits. -/
theorem Live.fetch {c : Computation} (hl : s.Live awaited (some turn)) (hs : s.Sound w h)
    (hturn : turn.subject? = none) (hcall : ∀ name, turn.isCallOf name = false) :
    (s.fetch c).Live awaited none := by
  unfold Service.fetch
  split
  · have hclosed : s.Live awaited none := hl.close hcall fun u _ hu => by
      rw [hturn] at hu
      cases hu
    exact { hclosed with }
  · exact hl.compute hs hturn hcall

theorem Live.takeOff {c : Computation} (hl : s.Live awaited (some (.takeOff c.flight)))
    (hs : s.Sound w h) : (s.takeOff c).Live awaited none := by
  have hslots : Live awaited (some (.takeOff c.flight))
      { s with slots := (s.slots.acquire c.flight).1 } := { hl with }
  unfold Service.takeOff
  dsimp only
  split
  · exact hslots.fetch (hs.withSlots _) rfl fun _ => rfl
  · exact hslots.close (fun _ => rfl) fun _ _ hu => absurd hu nofun

theorem Live.useGranted {c : Computation} (hl : s.Live awaited (some turn)) (hs : s.Sound w h)
    (hturn : turn.subject? = none) (hcall : ∀ name, turn.isCallOf name = false) :
    (s.useGranted c).Live awaited none :=
  (hl.withSlots _ _).fetch ((hs.withSlots _).enqueue_granted _) hturn hcall

/-! ### Turns -/

/-- Performing a turn closes the gap that it left. -/
theorem Live.perform (hl : Live awaited none { s with ready := turn :: s.ready }) (hs : s.Sound w h)
    (hfits : s.Fits turn) (hcall : ∀ c, turn = .call c → w.taken c s.registry) :
    (s.perform turn).Live awaited none := by
  have hgap := hl.takeOut
  have htask : ∀ {n : Nat} {next : Task → Service}, turn.subject? = some n →
      (∀ t ∈ s.tasks, t.number = n → (next t).Live awaited none) →
        (s.withTask n next).Live awaited none := by
    intro n next hturn hnext
    refine withTask_of (fun hgone => hgap.closeTask hturn fun t hmem hnumber => ?_) hnext
    exact absurd hnumber (hgone t hmem)
  have hcomputation : ∀ {n : Nat} {next : Computation → Service}, turn.subject? = none →
      (∀ name, turn.isCallOf name = false) →
      (∀ c ∈ s.computations, c.flight = n → (next c).Live awaited none) →
        (s.withComputation n next).Live awaited none := by
    intro n next hturn hnot hnext
    refine withComputation_of (fun _ => hgap.close hnot fun t _ ht => ?_) hnext
    rw [hturn] at ht
    cases ht
  cases turn with
  | call c => exact hgap.takeUp hs (hcall c rfl)
  | begin n =>
    refine htask rfl ?_
    rintro t ht rfl
    exact hgap.begin hs ht rfl fun place => hfits.unheld t.number place (by simp [Turn.holds])
  | takeOff n =>
    refine hcomputation rfl (fun _ => rfl) ?_
    rintro c hc rfl
    exact hgap.takeOff hs
  | granted n =>
    exact hcomputation rfl (fun _ => rfl) fun c _ _ => hgap.useGranted hs rfl fun _ => rfl
  | fetched n =>
    exact hcomputation rfl (fun _ => rfl) fun c _ _ => hgap.compute hs rfl fun _ => rfl
  | deliver n x =>
    refine htask rfl fun t _ hnumber => ?_
    refine (hgap.enqueue [.resume n x]).closeTask rfl fun u _ hut => .inl ?_
    exact ⟨_, List.mem_append_right _ List.mem_cons_self, by simp [Turn.moves, hut]⟩
  | resume n x =>
    refine htask rfl ?_
    rintro t ht rfl
    refine hgap.conclude hs.numbers ht rfl fun _ _ _ points => ?_
    cases Aggregate.contribution t.formula.kind x with
    | error f => simp [Except.map]
    | ok r => simp [Except.map]
  | report n place x =>
    refine htask rfl ?_
    rintro t ht rfl
    exact hl.collect hs ht
  | wake n failure =>
    refine htask rfl ?_
    rintro t ht rfl
    exact hgap.goOn hs ht rfl

/-! ### The end -/

/-- A task that stands for a place is the part there, or has its result. -/
theorem owner_or_result {u : Task} {n place : Nat} (h : u.holds n place ≠ 0) :
    u.owner = .task n place ∨ u.number = n ∧ place ∈ u.results.map (·.1) := by
  unfold Task.holds at h
  by_cases hn : u.number = n ∧ place ∈ u.results.map (·.1)
  · exact .inr hn
  · refine .inl ?_
    have hzero : (if u.number = n then u.results.countP (·.1 == place) else 0) = 0 := by
      split
      · rename_i heq
        rw [List.countP_eq_zero]
        intro r hr hplace
        exact hn ⟨heq, List.mem_map.mpr ⟨r, hr, by simpa using hplace⟩⟩
      · rfl
    rw [hzero, Nat.add_zero] at h
    split at h
    · rename_i m q howner
      obtain ⟨rfl, rfl⟩ : m = n ∧ q = place := by
        by_contra hne
        exact h (if_neg hne)
      exact howner
    · exact absurd rfl h

/-- When nothing is left to do there is no task any more. -/
theorem Live.tasks_eq_nil (hl : s.Live awaited none) (hs : s.Sound w h) (hready : s.ready = [])
    (hcomputations : s.computations = []) : s.tasks = [] := by
  rw [List.eq_nil_iff_forall_not_mem]
  -- by the depth of the parts: an open task has a part that is still under way
  have hnone : ∀ rank, ∀ t ∈ s.tasks, t.job.rank = rank → False := by
    intro rank
    induction rank using Nat.strong_induction_on with
    | _ rank ih =>
      rintro t ht rfl
      rcases (hl.due t ht).resolve_left (by simp) with
        ⟨turn, hturn, -⟩ | ⟨f, hf, -⟩ | ⟨hopen, hparts⟩
      · rw [hready] at hturn
        cases hturn
      · obtain ⟨c, hc, -⟩ := hl.computed f.number (List.mem_map_of_mem hf)
        rw [hcomputations] at hc
        cases hc
      · obtain ⟨place, hplace, hmissing⟩ :
            ∃ place < t.job.parts.length, place ∉ t.results.map (·.1) := by
          by_contra hall
          have hsub : List.range t.job.parts.length ⊆ t.results.map (·.1) := by
            intro place hplace
            by_contra hnot
            exact hall ⟨place, List.mem_range.mp hplace, hnot⟩
          have hlength := (List.nodup_range.subperm hsub).length_le
          simp only [List.length_range, List.length_map] at hlength
          omega
        have hheld := hparts place hplace
        unfold held at hheld
        rw [hready, List.countP_nil, Nat.zero_add] at hheld
        obtain ⟨u, hu, hholds⟩ : ∃ u ∈ s.tasks, u.holds t.number place ≠ 0 := by
          by_contra hzero
          have hsum : (s.tasks.map (·.holds t.number place)).sum = 0 := by
            rw [List.sum_eq_zero_iff]
            intro k hk
            obtain ⟨u, hu, rfl⟩ := List.mem_map.mp hk
            by_contra hne
            exact hzero ⟨u, hu, hne⟩
          omega
        rcases owner_or_result hholds with howner | ⟨hnumber, hresult⟩
        · exact ih u.job.rank (hs.rank_lt ht hu (by simp [Task.isPartOf, howner])) u hu rfl
        · obtain rfl := List.inj_on_of_nodup_map hs.numbers hu ht hnumber
          exact hmissing hresult
  exact fun t ht => hnone t.job.rank t ht rfl

theorem Live.exists_ending (hl : s.Live awaited none) (hs : s.Sound w h) (hready : s.ready = [])
    (hcomputations : s.computations = []) {name : String} (hname : awaited name) :
    ∃ e ∈ s.endings, e.caller = name := by
  have htasks := hl.tasks_eq_nil hs hready hcomputations
  rcases hl.under name hname with ⟨turn, hgap | hturn, -⟩ | ⟨t, ht, -⟩ | hending
  · cases hgap
  · rw [hready] at hturn
    cases hturn
  · rw [htasks] at ht
    cases ht
  · exact hending

end KeyFigures.Service
