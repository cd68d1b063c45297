/-
  KeyFigures/Proofs/Service/Turns.lean
  ====================================
  **Every turn keeps a service sound.**

  Over surroundings in which keys mean one thing (`Surroundings.Coherent`) a
  result from the cache, a flight that is joined and a flight of one's own come
  to the same.  `Service.Sound.perform` goes through the turns, and
  `Service.Sound.step` through all that can happen.
-/
import KeyFigures.Proofs.Cache.Traced
import KeyFigures.Proofs.Service.Calls
import KeyFigures.Proofs.Service.Steps

namespace KeyFigures

open Log (Recorded)
open Log.Recorded (Steady KeepsSetup)
open Surroundings (Meets)

variable {w : Surroundings} {h : History}

/-! ### The cache -/

theorem Surroundings.KeyMeans.of_fault {key : CacheKey} {fault : TimeFault} (h : w.shown fault) :
    w.KeyMeans key (.error (.time fault)) :=
  fun _ _ _ _ _ _ => .of_fault h

namespace SharedCache

variable {c : SharedCache Nat}

/-- Entries and registrations may be dropped. -/
theorem Sound.thin {cache : Cache} (hc : c.Sound w h)
    (hentries : ∀ e ∈ cache.entries, e ∈ c.cache.entries)
    (hflights : ∀ f ∈ cache.flights, f ∈ c.cache.flights)
    (hmisses : cache.misses = c.cache.misses) : { c with cache := cache }.Sound w h :=
  { hc with
    entries := fun e he => hc.entries e (hentries e he)
    misses := hmisses.trans hc.misses
    registered := fun r hr => hc.registered r (hflights r hr) }

theorem Sound.dropWhere (hc : c.Sound w h) (selected : CacheKey → Bool) :
    { c with cache := c.cache.dropWhere selected }.Sound w h :=
  hc.thin (fun _ he => (List.mem_filter.mp he).1) (fun _ hf => (List.mem_filter.mp hf).1) rfl

/-- What the arrival of a flight makes of an outcome that is right for its key. -/
theorem Sound.arrival (hc : c.Sound w h) (f : Flight Nat) {x : Attempt Result}
    (hx : w.KeyMeans f.key x) : w.KeyMeans f.key (c.arrival f x) := by
  unfold SharedCache.arrival
  split
  · rename_i fault r hnow
    split
    · exact .of_fault (hc.clock fault hnow)
    · exact hx
  · exact hx

theorem Sound.land (hc : c.Sound w h) (f : Flight Nat) {x : Attempt Result}
    (hx : w.KeyMeans f.key x) : (c.land f x).1.Sound w h := by
  unfold SharedCache.land
  have hflights : ∀ g ∈ c.flights.filter (·.number != f.number), g.Sound h :=
    fun g hg => hc.flights g (List.mem_filter.mp hg).1
  have hgone : { c with flights := c.flights.filter (·.number != f.number) }.Sound w h :=
    { hc with flights := hflights }
  rcases c.cache.land_cases c.time f.key f.number x with
    ⟨r, evicted, rfl, -, heq⟩ | ⟨failure, rfl, -, heq⟩ | ⟨-, landing, -, heq⟩
  · rw [heq]
    refine { hgone with entries := ?_, misses := hc.misses, registered := ?_ }
    · intro e he
      rcases Cache.mem_refresh.mp (Cache.mem_of_mem_trim he) with ⟨hold, -⟩ | rfl
      · exact hc.entries e hold
      · exact hx
    · exact fun r hr => hc.registered r (List.mem_filter.mp hr).1
  · rw [heq]
    exact hgone.thin (fun _ he => he) (fun _ hf => (List.mem_filter.mp hf).1) rfl
  · rw [heq]
    exact hgone

/-- What a request leads to, by the way in which it is met. -/
theorem Sound.request (hc : c.Sound w h) {n : Nat} {a : Errand} {entity year : Value}
    {key : CacheKey} (ha : h.errands[n]? = some a) (hlooks : a.LooksUp entity year key) :
    ∃ h', h.Grows h' ∧ h'.errands = h.errands ∧ (c.request n key).1.Sound w h' ∧
      (∀ r, (c.request n key).2 = .hit r → w.KeyMeans key (.ok r)) ∧
      ∀ flight, (c.request n key).2 = .started flight → h'.keys[flight]? = some key := by
  have hrefl : h.Grows h := ⟨List.prefix_rfl, List.prefix_rfl⟩
  unfold SharedCache.request
  rcases c.cache.request_cases c.time key with
    ⟨e, he, rfl, heq⟩ | ⟨-, flight, hflight, heq⟩ | ⟨-, -, heq⟩
  · rw [heq]
    refine ⟨h, hrefl, rfl, ?_, ?_, nofun⟩
    · exact hc.thin (fun x hx => Cache.mem_of_mem_refresh he hx) (fun _ hf => hf) rfl
    · rintro r ⟨⟩
      exact hc.entries e he
  · rw [heq]
    obtain ⟨entries, evictions, hexpire, hsub⟩ := c.cache.expire_eq c.time key
    have hroute := hc.registered _ (Cache.mem_of_flight? hflight)
    refine ⟨h, hrefl, rfl, ?_, nofun, nofun⟩
    rw [hexpire]
    refine { hc with
      entries := fun x hx => hc.entries x (hsub.subset hx)
      flights := ?_ }
    intro f hf
    obtain ⟨f, hmem, rfl⟩ := List.mem_map.mp hf
    have hsound := hc.flights f hmem
    split
    · rename_i hnumber
      have hkey : f.key = key := by
        have hroute' := hsound.route
        rw [hnumber, hroute] at hroute'
        exact (Option.some.inj hroute').symm
      refine ⟨hsound.route, ?_⟩
      intro m hm
      rcases List.mem_append.mp hm with hm | hm
      · exact hsound.waiting m hm
      · obtain rfl := List.mem_singleton.mp hm
        exact ⟨a, entity, year, ha, hkey ▸ hlooks⟩
    · exact hsound
  · rw [heq]
    obtain ⟨entries, evictions, hexpire, hsub⟩ := c.cache.expire_eq c.time key
    obtain ⟨h', hh'⟩ : ∃ h' : History, h' = ⟨h.errands, h.keys ++ [key]⟩ := ⟨_, rfl⟩
    have hg : h.Grows h' := by
      subst hh'
      exact ⟨List.prefix_rfl, List.prefix_append _ _⟩
    have hroute : h'.keys[c.cache.misses]? = some key := by
      rw [hh', hc.misses]
      exact List.getElem?_concat_length
    refine ⟨h', hg, by rw [hh'], ?_, nofun, ?_⟩
    · rw [hexpire]
      refine { hc with
        entries := fun x hx => hc.entries x (hsub.subset hx)
        misses := ?_
        registered := ?_
        flights := ?_ }
      · show c.cache.misses + 1 = h'.keys.length
        rw [hh', hc.misses, List.length_append]
        rfl
      · intro r hr
        rcases List.mem_append.mp hr with hr | hr
        · exact hg.key (hc.registered r hr)
        · obtain rfl := List.mem_singleton.mp hr
          exact hroute
      · intro f hf
        rcases List.mem_append.mp hf with hf | hf
        · exact (hc.flights f hf).grow hg
        · obtain rfl := List.mem_singleton.mp hf
          refine ⟨hroute, fun m hm => ?_⟩
          obtain rfl := List.mem_singleton.mp hm
          exact ⟨a, entity, year, hg.errand ha, hlooks⟩
    · rintro flight ⟨⟩
      exact hroute

end SharedCache

/-! ### Tasks -/

namespace Service

variable {s : Service} {t : Task}

theorem response_single (a : Errand) {entity year : Value}
    (hjob : a.job = .figure (.single entity year)) :
    a.response w.fetched = (Aggregate.contribution a.formula.kind
      (a.formula.outcome w.fetched entity year a.version)).map .figure := by
  unfold Errand.response
  rw [hjob]
  rfl

/-- A task ends with the outcome of its formula on its ledger. -/
theorem Sound.conclude_single {x : Attempt Result} {entity year : Value} (hs : s.Sound w h)
    (ht : t ∈ s.tasks) (hjob : t.job = .figure (.single entity year))
    (hx : w.Meets Result.Agrees (t.formula.outcome w.fetched entity year t.version) x) :
    (s.conclude t ((Aggregate.contribution t.formula.kind x).map .figure)).Sound w h := by
  refine hs.conclude_of_mem ht ?_
  rw [response_single t.errand hjob]
  exact hx.contribution.map fun _ _ => .figure

/-- Without a time nothing can be looked up. -/
theorem Sound.conclude_fault {fault : TimeFault} (hs : s.Sound w h) (ht : t ∈ s.tasks)
    (hshown : w.shown fault) : (s.conclude t (.error (.time fault))).Sound w h :=
  hs.conclude_of_mem ht (.of_fault hshown)

theorem Sound.request {entity year : Value} {key : CacheKey} (hs : s.Sound w h) (ht : t ∈ s.tasks)
    (hjob : t.job = .figure (.single entity year))
    (hkey : CacheKey.ofValues entity year t.version (.text t.formula.key) = .ok key) :
    ∃ h', (s.request t entity year key).Sound w h' := by
  have herrand := (hs.tasks t ht).errand_eq
  have hwanted : w.Wanted t.formula t.version t.job :=
    (hs.history _ (List.mem_of_getElem? herrand)).wanted
  rw [hjob] at hwanted
  obtain ⟨h', hg, herrands, hcache, hhit, hstarted⟩ :=
    hs.cache.request herrand (show t.errand.LooksUp entity year key from ⟨hjob, hkey⟩)
  refine ⟨h', ?_⟩
  have hgrown : { s with cache := (s.cache.request t.number key).1 }.Sound w h' := { hs with
    history := fun a ha => (hs.history a (herrands ▸ ha)).grow hg
    next := by
      rw [herrands]
      exact hs.next
    cache := hcache
    computations := fun c hc => (hs.computations c hc).grow hg
    tasks := fun u hu => (hs.tasks u hu).grow hg
    turns := fun turn hturn => (hs.turns turn hturn).grow hg }
  have hnoted := hgrown.record t.context
    ((s.cache.request t.number key).2.composed_note key).keepsSetup
  unfold Service.request
  revert hhit hstarted hnoted
  rcases s.cache.request t.number key with ⟨cache, r | flight | flight⟩ <;>
    intro hhit hstarted hnoted
  · have hmeets := hhit r rfl t.formula entity year t.version hwanted hkey
    exact hnoted.conclude_single ht hjob hmeets
  · exact hnoted
  · have hcomputation : Computation.Sound w h'
        ⟨flight, entity, year, t.version, key, t.formula, t.context⟩ :=
      ⟨hstarted flight rfl, hwanted, hkey⟩
    have hturns : ∀ turn ∈ [Turn.takeOff flight], turn.Sound w h' ∧
        (∀ n p, turn.holds n p = false) ∧ ∀ n, turn ≠ .wake n none := by
      simp [Turn.Sound, Turn.holds]
    have hready := hnoted.enqueue_all hturns
    exact { hready with
      computations := by
        intro c hc
        rcases List.mem_append.mp hc with hc | hc
        · exact hready.computations c hc
        · exact List.mem_singleton.mp hc ▸ hcomputation }

theorem eq_fault_of_blocked? {c : SharedCache Nat} {key : CacheKey} {fault : TimeFault}
    (h : c.blocked? key = some fault) : c.now = .error fault := by
  unfold SharedCache.blocked? at h
  split at h
  · rename_i fault' hnow
    split at h
    · rw [hnow, Option.some.inj h]
    · cases h
  · cases h

/-! ### Results of parts -/

theorem forall₂_filterMap_range {α β : Type} {R : α → β → Prop} {xs : List α}
    {f : Nat → Option β} (hf : ∀ p x, xs[p]? = some x → ∃ y, f p = some y ∧ R x y) :
    List.Forall₂ R xs ((List.range xs.length).filterMap f) := by
  induction xs generalizing f with
  | nil => exact .nil
  | cons x xs ih =>
    obtain ⟨y, hy, hxy⟩ := hf 0 x rfl
    rw [List.length_cons, List.range_succ_eq_map, List.filterMap_cons_some hy, List.filterMap_map]
    exact .cons hxy (ih fun p x' hx' => hf (p + 1) x' (by rwa [List.getElem?_cons_succ]))

/-- Of a task that is complete the results are those of its parts. -/
theorem Sound.ordered (hs : s.Sound w h) (ht : t ∈ s.tasks)
    (hcomplete : t.job.parts.length ≤ t.results.length) :
    List.Forall₂ (fun g r => ∃ x, t.formula.figure w.fetched t.version g = .ok x ∧ x.Agrees r)
      t.job.parts t.ordered := by
  have hsound := hs.tasks t ht
  have hnodup : (t.results.map (·.1)).Nodup := by
    rw [List.nodup_iff_count_le_one]
    intro p
    have honce := hs.once t.number p
    have hself : t.holds t.number p ≤ (s.tasks.map (·.holds t.number p)).sum :=
      List.single_le_sum (by simp) _ (List.mem_map_of_mem ht)
    have hcount : (t.results.map (·.1)).count p ≤ t.holds t.number p := by
      unfold Task.holds
      rw [if_pos rfl, List.count, List.countP_map]
      exact Nat.le_add_left _ _
    unfold held at honce
    omega
  -- as many places as parts, none of them twice: every place has its result
  have hsub : t.results.map (·.1) ⊆ List.range t.job.parts.length := by
    intro p hp
    obtain ⟨r, hr, rfl⟩ := List.mem_map.mp hp
    obtain ⟨g, hg, -⟩ := hsound.results r hr
    exact List.mem_range.mpr (List.getElem?_eq_some_iff.mp hg).1
  have hperm : (t.results.map (·.1)).Perm (List.range t.job.parts.length) :=
    (hnodup.subperm hsub).perm_of_length_le (by simpa using hcomplete)
  unfold Task.ordered
  refine forall₂_filterMap_range fun p g hg => ?_
  have hp : p ∈ t.results.map (·.1) :=
    hperm.mem_iff.mpr (List.mem_range.mpr (List.getElem?_eq_some_iff.mp hg).1)
  obtain ⟨r, hr, hplace⟩ := List.mem_map.mp hp
  cases hfind : t.results.find? (·.1 == p) with
  | none => exact absurd (List.find?_eq_none.mp hfind r hr) (by simpa using hplace)
  | some r =>
    obtain rfl : r.1 = p := by simpa using List.find?_some hfind
    obtain ⟨g', hg', hmeets⟩ := hsound.results r (List.mem_of_find?_eq_some hfind)
    obtain rfl : g = g' := Option.some.inj (hg.symm.trans hg')
    exact ⟨r.2, rfl, hmeets.ok⟩

theorem sum_update_le {f : Task → Nat} {u : Task} {k : Nat} {tasks : List Task}
    (hnodup : (tasks.map (·.number)).Nodup)
    (hle : ∀ v ∈ tasks, v.number = u.number → f u ≤ f v + k) :
    ((tasks.map fun v => if v.number = u.number then u else v).map f).sum ≤
      (tasks.map f).sum + k := by
  induction tasks with
  | nil => simp
  | cons v tasks ih =>
    rw [List.map_cons, List.nodup_cons] at hnodup
    simp only [List.map_cons, List.sum_cons]
    split
    · rename_i hv
      have hrest : (tasks.map fun v => if v.number = u.number then u else v) = tasks := by
        refine (List.map_congr_left fun x hx => ?_).trans (List.map_id _)
        refine if_neg fun hxu : x.number = u.number => hnodup.1 ?_
        rw [hv, ← hxu]
        exact List.mem_map_of_mem hx
      have := hle v List.mem_cons_self hv
      rw [hrest]
      omega
    · have := ih hnodup.2 fun x hx => hle x (List.mem_cons_of_mem v hx)
      omega

theorem mem_update {u v : Task} {tasks : List Task}
    (h : v ∈ tasks.map fun v => if v.number = u.number then u else v) :
    v = u ∨ v ∈ tasks ∧ v.number ≠ u.number := by
  obtain ⟨v', hv', rfl⟩ := List.mem_map.mp h
  split
  · exact .inl rfl
  · rename_i hne
    exact .inr ⟨hv', hne⟩

theorem numbers_update (u : Task) (tasks : List Task) :
    (tasks.map fun v => if v.number = u.number then u else v).map (·.number) =
      tasks.map (·.number) := by
  rw [List.map_map]
  refine List.map_congr_left fun v _ => ?_
  dsimp only [Function.comp]
  split
  · rename_i heq
    exact heq.symm
  · rfl

/-- A task that is replaced may stand for one more part, if nothing stood for
    it. -/
theorem held_update_le {u : Task} {place : Nat} (hnumbers : (s.tasks.map (·.number)).Nodup)
    (honce : ∀ n p, s.held n p ≤ 1) (ht : t ∈ s.tasks) (hnumber : u.number = t.number)
    (hholds : ∀ n p, u.holds n p ≤ t.holds n p + if t.number = n ∧ place = p then 1 else 0)
    (hfree : s.held t.number place = 0) (n p : Nat) :
    { s with
      tasks := s.tasks.map fun v : Task => if v.number = u.number then u else v }.held n p ≤ 1 := by
  have hsum := sum_update_le (f := (·.holds n p)) (u := u)
    (k := if t.number = n ∧ place = p then 1 else 0) hnumbers (by
      intro v hv heq
      obtain rfl : v = t := List.inj_on_of_nodup_map hnumbers hv ht (heq.trans hnumber)
      exact hholds n p)
  have honce := honce n p
  unfold held at honce hfree ⊢
  dsimp only
  split at hsum
  · rename_i heq
    obtain ⟨rfl, rfl⟩ := heq
    omega
  · omega

/-- A task may be replaced by one that stands for one more part, which nothing
    stood for. -/
theorem Sound.update {u : Task} (hs : s.Sound w h) (place : Nat) (ht : t ∈ s.tasks)
    (hu : u.Sound w h) (hnumber : u.number = t.number) (hjob : u.job = t.job)
    (hlength : t.results.length ≤ u.results.length)
    (hholds : ∀ n p, u.holds n p ≤ t.holds n p + if t.number = n ∧ place = p then 1 else 0)
    (hfree : s.held t.number place = 0) :
    { s with tasks := s.tasks.map fun v : Task => if v.number = u.number then u else v }.Sound w h :=
  { hs with
    tasks := by
      intro v hv
      rcases mem_update hv with rfl | ⟨hv, -⟩
      · exact hu
      · exact hs.tasks v hv
    numbers := (numbers_update u s.tasks).symm ▸ hs.numbers
    once := held_update_le hs.numbers hs.once ht hnumber hholds hfree
    complete := by
      intro n hn v hv heq
      rcases mem_update hv with rfl | ⟨hv, -⟩
      · rw [hjob]
        exact (hs.complete n hn t ht (hnumber.symm.trans heq)).trans hlength
      · exact hs.complete n hn v hv heq }

/-- A task takes in the outcome of a part that nothing stands for any more. -/
theorem Sound.collect {place : Nat} {g : Figure} {x : Attempt Result} (hs : s.Sound w h)
    (ht : t ∈ s.tasks) (hp : h.HasPart t.number place t.errand g)
    (hx : w.Meets Result.Agrees (t.formula.figure w.fetched t.version g) x)
    (hfree : s.held t.number place = 0) : (s.collect t place x).Sound w h := by
  unfold Service.collect
  cases x with
  | error f => exact hs.enqueue ⟨t.errand, g, place, hp, hx⟩ ⟨nofun, nofun⟩
  | ok r =>
    have hsound : { t with results := t.results ++ [(place, r)] }.Sound w h := by
      refine ⟨(hs.tasks t ht).errand_eq, ?_⟩
      intro r' hr'
      rcases List.mem_append.mp hr' with hr' | hr'
      · exact (hs.tasks t ht).results r' hr'
      · obtain rfl := List.mem_singleton.mp hr'
        exact ⟨g, hp.part_eq, hx⟩
    have hcollected := hs.update place ht hsound rfl rfl (by simp) (by
      intro n p
      unfold Task.holds
      by_cases hn : t.number = n <;> by_cases hplace : place = p <;>
        simp [hn, hplace, List.countP_append]
      omega) hfree
    dsimp only
    split
    · rename_i hcomplete
      have hcomposite : t.job.isComposite :=
        Job.isComposite_of_part (List.mem_of_getElem? hp.part_eq)
      have hwake : (Turn.wake t.number none).Sound w h :=
        ⟨t.errand, hp.errand_eq, hcomposite, hp.check_eq⟩
      refine hcollected.enqueue hwake ⟨nofun, ?_⟩
      rintro n ⟨⟩ v hv heq
      rcases mem_update hv with rfl | ⟨-, hne⟩
      · exact Nat.le_of_eq (beq_iff_eq.mp hcomplete).symm
      · exact absurd heq hne
    · exact hcollected

/-! ### Calls -/

/-- The task of a call. -/
def taskOf (s : Service) (c : Call) (f : Compiled) (job : Job) : Task where
  number := s.nextTask
  owner := .caller c.caller [(.requestId, c.context.requestId)]
  formula := f
  version := c.version
  job := job
  context := (c.context.bind [("request_id", .text (s.requestId s.nextRequest))]).2

/-- The service with the task of a call. -/
def enrol (s : Service) (c : Call) (f : Compiled) (job : Job) : Service :=
  let noted := ({ s with nextRequest := s.nextRequest + 1 }.record (s.taskOf c f job).context
    (c.note f.key)).2
  { noted with tasks := noted.tasks ++ [s.taskOf c f job], nextTask := noted.nextTask + 1 }

theorem takeUp_eq (s : Service) (c : Call) :
    s.takeUp c = match s.registry.prepare c with
      | .error f => s.finish c.caller (.error f) c.context
      | .ok (f, job) => (s.enrol c f job).begin (s.taskOf c f job) := by
  have hprepare : (do
      let formula ← s.registry.compile c.formula
      let job ← c.job
      .ok (formula, job) : Attempt (Compiled × Job)) = s.registry.prepare c := rfl
  unfold Service.takeUp
  rw [hprepare]
  cases s.registry.prepare c <;> rfl

theorem Sound.enrol {c : Call} {f : Compiled} {job : Job} (hs : s.Sound w h)
    (hc : w.taken c s.registry) (hprepared : s.registry.prepare c = .ok (f, job)) :
    ∃ h', (s.enrol c f job).Sound w h' ∧
      ∀ place, (s.enrol c f job).held (s.taskOf c f job).number place = 0 := by
  have hcounted : { s with nextRequest := s.nextRequest + 1 }.Sound w h := { hs with }
  have hnoted := hcounted.record (s.taskOf c f job).context (c.composed_note f.key).keepsSetup
  have herrand : (s.taskOf c f job).errand.Sound w h :=
    ⟨.asked hc hprepared, c, s.registry, hc, rfl, rfl, hprepared⟩
  obtain ⟨h', -, -, hsound, hfree⟩ :=
    hnoted.extend (u := s.taskOf c f job) rfl herrand rfl nofun
  exact ⟨h', hsound, hfree⟩

section Coherent

variable (hw : w.Coherent)

include hw

theorem Sound.lookUp {entity year : Value} (hs : s.Sound w h) (ht : t ∈ s.tasks)
    (hjob : t.job = .figure (.single entity year)) :
    ∃ h', (s.lookUp t entity year).Sound w h' := by
  have hwanted : w.Wanted t.formula t.version t.job :=
    (hs.history _ (List.mem_of_getElem? (hs.tasks t ht).errand_eq)).wanted
  rw [hjob] at hwanted
  obtain ⟨key, hkey⟩ := hw.exists_key hwanted
  unfold Service.lookUp
  rw [hkey]
  dsimp only
  cases hblocked : s.cache.blocked? key with
  | some fault =>
    exact ⟨h, hs.conclude_fault ht (hs.cache.clock fault (eq_fault_of_blocked? hblocked))⟩
  | none => exact hs.request ht hjob hkey

/-- A task begins: what it is there for is refused, looked up or split. -/
theorem Sound.begin (hs : s.Sound w h) (ht : t ∈ s.tasks)
    (hfree : ∀ place, s.held t.number place = 0) : ∃ h', (s.begin t).Sound w h' := by
  unfold Service.begin
  cases hcheck : t.job.check with
  | error f =>
    refine ⟨h, hs.conclude_of_mem ht (.inl ?_)⟩
    unfold Errand.response
    rw [Compiled.response_of_check (show t.errand.job.check = .error f from hcheck)]
    rfl
  | ok u =>
    dsimp only
    split
    · rename_i entity year hjob
      exact hs.lookUp hw ht hjob
    · exact hs.spawn ht hcheck hfree

theorem Sound.takeUp {c : Call} (hs : s.Sound w h) (hc : w.taken c s.registry) :
    ∃ h', (s.takeUp c).Sound w h' := by
  rw [takeUp_eq]
  cases hprepared : s.registry.prepare c with
  | error f =>
    refine ⟨h, hs.finish ⟨c, s.registry, hc, rfl, .inl ?_⟩⟩
    unfold Registry.response
    rw [hprepared]
    rfl
  | ok prepared =>
    obtain ⟨h', henrolled, hfree⟩ := hs.enrol hc hprepared
    exact henrolled.begin hw (List.mem_append_right _ List.mem_cons_self) hfree

/-- A task ends with the results of its parts, or with the failure of one. -/
theorem Sound.goOn {failure : Option Failure} (hs : s.Sound w h) (ht : t ∈ s.tasks)
    (hturn : (Turn.wake t.number failure).Sound w h)
    (hcomplete : failure = none → t.job.parts.length ≤ t.results.length) :
    (s.goOn t failure).Sound w h := by
  have herrand := (hs.tasks t ht).errand_eq
  have hwanted : w.Wanted t.formula t.version t.job :=
    (hs.history _ (List.mem_of_getElem? herrand)).wanted
  cases failure with
  | some f =>
    obtain ⟨a, g, place, hp, hx⟩ := hturn
    obtain rfl : t.errand = a := Option.some.inj (herrand.symm.trans hp.errand_eq)
    have hmeets : w.Meets Response.Agrees (t.errand.response w.fetched) (.error f) := by
      rcases hx.error with hfigure | ⟨fault, hshown, rfl⟩
      · refine .inl ?_
        have hresponse : t.errand.response w.fetched = .error f :=
          Compiled.response_of_failing hp.check_eq (hw.failsAlike hwanted)
            (List.mem_of_getElem? hp.part_eq) hfigure
        rw [hresponse]
        rfl
      · exact .of_fault hshown
    refine (hs.abandon (s.within t.number)).conclude herrand (fun n p howner => ?_) hmeets
    have hless := held_le_of_sublist (s := { s with tasks := s.tasks.filter (·.number != t.number) })
      (.refl s.ready) ((List.filter_sublist (l := s.tasks)
        (p := fun u => !(s.within t.number).any (·.number == u.number))).filter
          (·.number != t.number)) n p
    rw [hs.held_without ht howner] at hless
    exact Nat.le_zero.mp hless
  | none =>
    obtain ⟨a, ha, hcomposite, hcheck⟩ := hturn
    obtain rfl : t.errand = a := Option.some.inj (herrand.symm.trans ha)
    have hmeets : w.Meets Response.Agrees (t.errand.response w.fetched)
        (t.job.combine t.formula.kind t.ordered) :=
      .inl (Compiled.response_alike_combine hcomposite hcheck (hs.ordered ht (hcomplete rfl)))
    have hrecorded := hs.record t.context t.steady_respond.keepsSetup
    have houtcome := hs.record_eq t.context t.steady_respond
    exact hrecorded.conclude_of_mem ht (houtcome ▸ hmeets)

end Coherent

/-! ### Flights -/

/-- Slots tell nothing about results. -/
theorem Sound.withSlots (hs : s.Sound w h) (slots : Slots) : { s with slots := slots }.Sound w h :=
  { hs with }

theorem Sound.enqueue_granted (hs : s.Sound w h) (next : Option Nat) :
    (s.enqueue (next.map Turn.granted).toList).Sound w h := by
  refine hs.enqueue_all ?_
  cases next <;> simp [Turn.Sound, Turn.holds]

theorem Sound.releaseSlot (hs : s.Sound w h) : s.releaseSlot.Sound w h :=
  (hs.withSlots _).enqueue_granted _

/-- A flight ends with an outcome that is right for its key. -/
theorem Sound.land {c : Computation} {x : Attempt Result} (hs : s.Sound w h)
    (hroute : h.keys[c.flight]? = some c.key) (hx : w.KeyMeans c.key x) :
    (s.land c x).Sound w h := by
  have hgone : { s with computations := s.computations.filter (·.flight != c.flight) }.Sound w h :=
    { hs with computations := fun d hd => hs.computations d (List.mem_filter.mp hd).1 }
  unfold Service.land
  dsimp only
  cases hflight : s.cache.flight? c.flight with
  | none => exact hgone
  | some f =>
    obtain ⟨hmem, hnumber⟩ := SharedCache.mem_of_flight? hflight
    have hsound := hs.cache.flights f hmem
    have hkey : f.key = c.key := by
      have hroute' := hsound.route
      rw [hnumber, hroute] at hroute'
      exact (Option.some.inj hroute').symm
    have harrival : w.KeyMeans f.key (s.cache.arrival f x) := hs.cache.arrival f (hkey ▸ hx)
    have hlanded := hgone.withCache (hs.cache.land f harrival)
    have hnoted := hlanded.record c.context
      ((s.cache.land f (s.cache.arrival f x)).2.composed_note c.key).keepsSetup
    refine hnoted.enqueue_all ?_
    intro turn hturn
    obtain ⟨n, hn, rfl⟩ := List.mem_map.mp hturn
    obtain ⟨a, entity, year, ha, hlooks⟩ := hsound.waiting n hn
    have hwanted := (hs.history _ (List.mem_of_getElem? ha)).wanted
    rw [hlooks.job_eq] at hwanted
    exact ⟨⟨a, entity, year, ha, hlooks.job_eq,
      harrival a.formula entity year a.version hwanted hlooks.key_eq⟩, by simp [Turn.holds], nofun⟩

section Coherent

variable (hw : w.Coherent)

include hw

/-- A flight is computed as everyone who asks with its key would. -/
theorem Sound.compute {c : Computation} (hs : s.Sound w h) (hc : c.Sound w h) :
    (s.compute c).Sound w h := by
  have hfetch := s.source.steady_fetch c.entity c.year c.version
  have hcounted : { s with fetches := s.fetches + 1 }.Sound w h := { hs with }
  have hfetched := hcounted.record c.bound hfetch.keepsSetup
  have hreleased := hfetched.releaseSlot
  have hmeans := hw.keyMeans hc.wanted hc.key_eq
  unfold Service.compute
  dsimp only
  rw [hcounted.record_eq c.bound hfetch, hs.answers]
  unfold Compiled.outcome at hmeans
  revert hmeans
  cases w.fetched c.entity c.year c.version with
  | error f => exact fun hmeans => hreleased.land hc.route hmeans
  | ok ledger =>
    intro hmeans
    have hevaluated := steady_evaluation c ledger
    have hrecorded := hreleased.record c.bound hevaluated.keepsSetup
    have houtcome := hreleased.record_eq c.bound hevaluated
    exact hrecorded.land hc.route (houtcome ▸ hmeans)

theorem Sound.fetch {c : Computation} (hs : s.Sound w h) (hc : c.Sound w h) :
    (s.fetch c).Sound w h := by
  unfold Service.fetch
  split
  · exact { hs with }
  · exact hs.compute hw hc

theorem Sound.takeOff {c : Computation} (hs : s.Sound w h) (hc : c.Sound w h) :
    (s.takeOff c).Sound w h := by
  unfold Service.takeOff
  dsimp only
  split
  · exact (hs.withSlots _).fetch hw hc
  · exact hs.withSlots _

theorem Sound.useGranted {c : Computation} (hs : s.Sound w h) (hc : c.Sound w h) :
    (s.useGranted c).Sound w h :=
  ((hs.withSlots _).enqueue_granted _).fetch hw hc

/-! ### Turns -/

/-- A turn that was taken out is performed. -/
theorem Sound.perform {turn : Turn} (hs : s.Sound w h) (hturn : turn.Sound w h)
    (hfits : s.Fits turn) (hcall : ∀ c, turn = .call c → w.taken c s.registry) :
    ∃ h', (s.perform turn).Sound w h' := by
  have hcomputation : ∀ {n : Nat} {next : Computation → Service},
      (∀ c, c.Sound w h → (next c).Sound w h) → ∃ h', (s.withComputation n next).Sound w h' :=
    fun hnext => withComputation_of (P := fun s' => ∃ h', s'.Sound w h') (fun _ => ⟨h, hs⟩)
      fun c hc _ => ⟨h, hnext c (hs.computations c hc)⟩
  have htask : ∀ {n : Nat} {next : Task → Service},
      (∀ t ∈ s.tasks, t.number = n → ∃ h', (next t).Sound w h') →
        ∃ h', (s.withTask n next).Sound w h' :=
    fun hnext => withTask_of (P := fun s' => ∃ h', s'.Sound w h') (fun _ => ⟨h, hs⟩) hnext
  have herrand : ∀ {t : Task} {a : Errand}, t ∈ s.tasks → h.errands[t.number]? = some a →
      t.errand = a := fun ht ha => Option.some.inj ((hs.tasks _ ht).errand_eq.symm.trans ha)
  cases turn with
  | call c => exact hs.takeUp hw (hcall c rfl)
  | begin n =>
    refine htask ?_
    rintro t ht rfl
    exact hs.begin hw ht fun place => hfits.unheld t.number place (by simp [Turn.holds])
  | takeOff n => exact hcomputation fun c hc => hs.takeOff hw hc
  | granted n => exact hcomputation fun c hc => hs.useGranted hw hc
  | fetched n => exact hcomputation fun c hc => hs.compute hw hc
  | deliver n x =>
    refine htask fun t ht _ => ⟨h, hs.enqueue_all ?_⟩
    intro turn hmem
    obtain rfl := List.mem_singleton.mp hmem
    exact ⟨hturn, by simp [Turn.holds], by simp⟩
  | resume n x =>
    refine htask ?_
    rintro t ht rfl
    obtain ⟨a, entity, year, ha, hjob, hx⟩ := hturn
    obtain rfl := herrand ht ha
    exact ⟨h, hs.conclude_single ht hjob hx⟩
  | report n place x =>
    refine htask ?_
    rintro t ht rfl
    obtain ⟨a, g, hp, hx⟩ := hturn
    obtain rfl := herrand ht hp.errand_eq
    exact ⟨h, hs.collect ht hp hx (hfits.unheld t.number place (by simp [Turn.holds]))⟩
  | wake n failure =>
    refine htask ?_
    rintro t ht rfl
    exact ⟨h, hs.goOn hw ht hturn fun hnone => hfits.complete t.number (by rw [hnone]) t ht rfl⟩

/-- A turn is taken; a call that is taken up has to be one of the surroundings. -/
theorem Sound.take {place : Nat} (hs : s.Sound w h)
    (hcall : ∀ c, s.ready[place]? = some (.call c) → w.taken c s.registry) :
    ∃ h', (s.take place).Sound w h' := by
  unfold Service.take
  cases hready : s.ready[place]? with
  | none => exact ⟨h, hs⟩
  | some turn =>
    obtain ⟨htaken, hturn, hfits⟩ := hs.takeOut hready
    exact htaken.perform hw hturn hfits fun c hc => hcall c (hc ▸ hready)

end Coherent

end Service

end KeyFigures
