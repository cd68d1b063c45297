/-
  KeyFigures/Proofs/Service/Moves.lean
  ====================================
  **What a service does to its cache.**

  A turn asks the cache for one result, ends one flight, has tasks leave their
  flights, or does nothing to it (`cacheMoves`).  Nothing else reaches the cache:
  after every step of a service the cache is the one that these events lead to
  (`cache_step`), so that whatever holds of every run of a shared cache holds of
  the cache of a service.

  A computation comes about only where the cache starts a flight, for a key that
  has neither a live entry nor a registered flight (`Launches`).
-/
import KeyFigures.Proofs.Cache.Registration
import KeyFigures.Proofs.Service.Turns

namespace KeyFigures

open Log (Recorded)
open Log.Recorded (Steady KeepsSetup)

/-- What a task asks the cache for: only the figure of one entity is looked up. -/
def Task.lookups (t : Task) : List (SharedCache.Event Nat) :=
  match t.job with
  | .figure (.single entity year) =>
    match CacheKey.ofValues entity year t.version (.text t.formula.key) with
    | .ok key => [.request t.number key]
    | .error _ => []
  | _ => []

theorem Task.lookups_of_composite {t : Task} (h : t.job.isComposite) : t.lookups = [] := by
  unfold lookups
  split
  · rename_i entity year hjob
    rw [hjob] at h
    cases h
  · rfl

namespace Service

/-- What a computation comes to with the ledger that the source has now. -/
def outcome (s : Service) (c : Computation) : Attempt Result :=
  c.formula.outcome s.source.answer c.entity c.year c.version

/-- A computation that has a slot fetches at once, unless fetches are held. -/
def fetchesNow? (s : Service) (c : Computation) : Option Computation :=
  if s.hold then none else some c

/-- The computation that fetches its ledger in a turn. -/
def computes? (s : Service) : Turn → Option Computation
  | .takeOff n => (s.computation? n).bind fun c =>
    if (s.slots.acquire c.flight).2 then s.fetchesNow? c else none
  | .granted n => (s.computation? n).bind s.fetchesNow?
  | .fetched n => s.computation? n
  | _ => none

def leaves (tasks : List Task) : List (SharedCache.Event Nat) := tasks.map fun t => .leave t.number

def landing (s : Service) (c : Computation) : SharedCache.Event Nat := .land c.flight (s.outcome c)

/-- What a turn does to the cache. -/
def cacheMoves (s : Service) : Turn → List (SharedCache.Event Nat)
  | .call c =>
    match s.registry.prepare c with
    | .ok (f, job) => (s.taskOf c f job).lookups
    | .error _ => []
  | .begin n => ((s.task? n).map Task.lookups).getD []
  | .wake n (some _) => ((s.task? n).map fun _ => leaves (s.within n)).getD []
  | turn => ((s.computes? turn).map s.landing).toList

/-- What an event does to the cache. -/
def cacheEvents (s : Service) : Event → List (SharedCache.Event Nat)
  | .take place => ((s.ready[place]?).map s.cacheMoves).getD []
  | .cancel caller =>
    let tasks := s.tasks.filter (·.isOf caller)
    leaves (tasks ++ tasks.flatMap fun t => s.within t.number)
  | .evict key => [.evict key]
  | .invalidate entity year => [.invalidate entity year]
  | .clear => [.clear]
  | .clock now => [.clock now]
  | .call _ | .hold _ | .letGo .. | .addLedger _ | .save _ => []

/-- The computation that fetches its ledger when something happens. -/
def computesIn? (s : Service) : Event → Option Computation
  | .take place => (s.ready[place]?).bind s.computes?
  | _ => none

/-- What a run does to the cache. -/
def cacheTrace (s : Service) : List Event → List (SharedCache.Event Nat)
  | [] => []
  | e :: rest => s.cacheEvents e ++ (s.step e).cacheTrace rest

variable {s : Service}

/-! ### Recording -/

theorem quiet_record {α : Type} {work : Recorded α} (hquiet : s.journal.IsQuiet)
    (context : Log.Context) (hwork : KeepsSetup work) :
    (s.record context work).2.journal.IsQuiet := by
  unfold Log.Journal.IsQuiet at hquiet ⊢
  have hsetup : (s.record context work).2.journal.setup = s.journal.setup :=
    hwork { s.journal with context := context }
  rwa [hsetup]

theorem record_fst_eq {α : Type} {work : Recorded α} {r : Attempt α} (hquiet : s.journal.IsQuiet)
    (context : Log.Context) (hwork : Steady work r) : (s.record context work).1 = r :=
  hwork.play_eq { s.journal with context := context } hquiet

/-- A computation does its work in its own context, and its flight lands with
    what that comes to. -/
theorem compute_eq (c : Computation) :
    ∃ s' : Service, s'.cache = s.cache ∧ s'.computations = s.computations ∧
      s'.journal.written = ((c.work s.source).play { s.journal with context := c.bound }).2.written ∧
      s.compute c =
        s'.land c ((c.work s.source).play { s.journal with context := c.bound }).1 := by
  obtain ⟨j, hj⟩ : ∃ j : Log.Journal, j = { s.journal with context := c.bound } := ⟨_, rfl⟩
  obtain ⟨s₁, hs₁⟩ : ∃ s₁, s₁ = ({ s with fetches := s.fetches + 1 }.record c.bound
      (s.source.fetch c.entity c.year c.version)).2.releaseSlot := ⟨_, rfl⟩
  have houtcome : ({ s with fetches := s.fetches + 1 }.record c.bound
      (s.source.fetch c.entity c.year c.version)).1 =
        ((s.source.fetch c.entity c.year c.version).play j).1 := by rw [hj]; rfl
  have hcache : s₁.cache = s.cache := by rw [hs₁]; rfl
  have hcomputations : s₁.computations = s.computations := by rw [hs₁]; rfl
  have hjournal : s₁.journal = { ((s.source.fetch c.entity c.year c.version).play j).2 with
      context := s.journal.context } := by rw [hs₁, hj]; rfl
  have hcontext : ((s.source.fetch c.entity c.year c.version).play j).2.context = c.bound := by
    rw [((s.source.composed_fetch c.entity c.year c.version).exists_added j).1, hj]
  rw [← hj]
  unfold Service.compute Computation.work
  dsimp only
  rw [houtcome, ← hs₁, Recorded.play_bind]
  revert hjournal hcontext
  rcases (s.source.fetch c.entity c.year c.version).play j with ⟨f | ledger, j'⟩ <;>
    intro hjournal hcontext
  · exact ⟨s₁, hcache, hcomputations, by rw [hjournal]; rfl, rfl⟩
  · -- the context is still the one of the computation
    have hback : { s₁.journal with context := c.bound } = j' := by
      rw [hjournal, ← hcontext]
    refine ⟨(s₁.record c.bound (evaluation c ledger)).2, hcache, hcomputations, ?_, ?_⟩
    · show ((evaluation c ledger).play { s₁.journal with context := c.bound }).2.written = _
      rw [hback]
    · show (s₁.record c.bound (evaluation c ledger)).2.land c
        ((evaluation c ledger).play { s₁.journal with context := c.bound }).1 = _
      rw [hback]

/-! ### One turn -/

@[simp]
theorem cache_enqueue (turns : List Turn) : (s.enqueue turns).cache = s.cache := rfl

@[simp]
theorem cache_record {α : Type} (context : Log.Context) (work : Recorded α) :
    (s.record context work).2.cache = s.cache := rfl

@[simp]
theorem cache_conclude (t : Task) (x : Attempt Response) : (s.conclude t x).cache = s.cache := by
  unfold Service.conclude
  dsimp only
  split
  · rfl
  · split <;> rfl

theorem run_single {ι : Type} [DecidableEq ι] (c : SharedCache ι) (e : SharedCache.Event ι) :
    (c.run [e]).1 = (c.step e).1 := rfl

theorem run_leaves (c : SharedCache Nat) (tasks : List Task) :
    (c.run (leaves tasks)).1 = tasks.foldl (fun c t => c.leave t.number) c := by
  induction tasks generalizing c with
  | nil => rfl
  | cons t tasks ih => exact ih (c.leave t.number)

theorem cache_abandon (dropped : List Task) :
    (s.abandon dropped).cache = (s.cache.run (leaves dropped)).1 :=
  (run_leaves s.cache dropped).symm

theorem cache_lookUp (t : Task) {entity year : Value} (hjob : t.job = .figure (.single entity year)) :
    (s.lookUp t entity year).cache = (s.cache.run t.lookups).1 := by
  unfold Service.lookUp Task.lookups
  rw [hjob]
  dsimp only
  cases CacheKey.ofValues entity year t.version (.text t.formula.key) with
  | error f => exact cache_conclude t _
  | ok key =>
    dsimp only
    rw [run_single]
    unfold SharedCache.step
    dsimp only
    cases s.cache.blocked? key with
    | some fault => exact cache_conclude t _
    | none =>
      dsimp only
      unfold Service.request
      rcases s.cache.request t.number key with ⟨cache, r | n | n⟩
      · exact cache_conclude t _
      · rfl
      · rfl

theorem cache_begin (t : Task) : (s.begin t).cache = (s.cache.run t.lookups).1 := by
  unfold Service.begin
  cases hcheck : t.job.check with
  | error f =>
    rw [Task.lookups_of_composite (Job.isComposite_of_check hcheck)]
    exact cache_conclude t _
  | ok u =>
    dsimp only
    split
    · rename_i entity year hjob
      exact cache_lookUp t hjob
    · rename_i hsingle
      have hnone : t.lookups = [] := by
        unfold Task.lookups
        split
        · rename_i entity year hjob
          exact absurd hjob (hsingle entity year)
        · rfl
      rw [hnone]
      rfl

theorem cache_takeUp (c : Call) : (s.takeUp c).cache = (s.cache.run (s.cacheMoves (.call c))).1 := by
  rw [takeUp_eq]
  unfold cacheMoves
  dsimp only
  cases s.registry.prepare c with
  | error f => rfl
  | ok prepared =>
    obtain ⟨f, job⟩ := prepared
    exact cache_begin (s := s.enrol c f job) _

theorem cache_goOn (t : Task) (failure : Option Failure) :
    (s.goOn t failure).cache =
      (s.cache.run ((failure.map fun _ => leaves (s.within t.number)).getD [])).1 := by
  cases failure with
  | some f => exact (cache_conclude t _).trans (cache_abandon _)
  | none => exact cache_conclude t _

theorem cache_collect (t : Task) (place : Nat) (x : Attempt Result) :
    (s.collect t place x).cache = s.cache := by
  unfold Service.collect
  split
  · dsimp only
    split <;> rfl
  · rfl

theorem cache_land (c : Computation) (x : Attempt Result) :
    (s.land c x).cache = (s.cache.step (.land c.flight x)).1 := by
  unfold Service.land SharedCache.step
  dsimp only
  cases s.cache.flight? c.flight <;> rfl

theorem cache_compute (hquiet : s.journal.IsQuiet) (c : Computation) :
    (s.compute c).cache = (s.cache.run [s.landing c]).1 := by
  obtain ⟨s', hcache, -, -, heq⟩ := compute_eq (s := s) c
  have houtcome := (c.steady_work s.source).play_eq { s.journal with context := c.bound } hquiet
  rw [heq, houtcome, cache_land, hcache]
  rfl

theorem cache_fetch {c : Computation} (hquiet : ∀ d, s.fetchesNow? c = some d → s.journal.IsQuiet) :
    (s.fetch c).cache = (s.cache.run ((s.fetchesNow? c).map s.landing).toList).1 := by
  unfold fetchesNow? at hquiet ⊢
  unfold Service.fetch
  split
  · rfl
  · rename_i hhold
    exact cache_compute (hquiet c (if_neg hhold)) c

/-- A turn does to the cache what it is said to do, and nothing else; of turns
    that land a flight this is said for a service that records no details. -/
theorem cache_perform {turn : Turn}
    (hquiet : ∀ c, s.computes? turn = some c → s.journal.IsQuiet) :
    (s.perform turn).cache = (s.cache.run (s.cacheMoves turn)).1 := by
  cases turn with
  | call c => exact cache_takeUp c
  | begin n =>
    simp only [perform, withTask, cacheMoves]
    cases s.task? n with
    | none => rfl
    | some t => exact cache_begin t
  | takeOff n =>
    simp only [computes?] at hquiet
    simp only [perform, withComputation, takeOff, cacheMoves, computes?]
    revert hquiet
    cases s.computation? n with
    | none => exact fun _ => rfl
    | some c =>
      cases hslot : s.slots.acquire c.flight with
      | mk slots isGranted =>
        simp only [hslot, Option.bind_some]
        cases isGranted with
        | false => exact fun _ => rfl
        | true => exact fun hquiet => cache_fetch (s := { s with slots := slots }) hquiet
  | granted n =>
    simp only [computes?] at hquiet
    simp only [perform, withComputation, useGranted, cacheMoves, computes?]
    revert hquiet
    cases s.computation? n with
    | none => exact fun _ => rfl
    | some c =>
      intro hquiet
      have hnow : ∀ d, s.fetchesNow? c = some d → s.journal.IsQuiet := hquiet
      exact cache_fetch (s := { s with slots := (s.slots.proceed c.flight).1 }.enqueue
        ((s.slots.proceed c.flight).2.map Turn.granted).toList) hnow
  | fetched n =>
    simp only [computes?] at hquiet
    simp only [perform, withComputation, cacheMoves, computes?]
    revert hquiet
    cases s.computation? n with
    | none => exact fun _ => rfl
    | some c => exact fun hquiet => cache_compute (hquiet c rfl) c
  | deliver n x =>
    simp only [perform, withTask]
    cases s.task? n <;> rfl
  | resume n x =>
    simp only [perform, withTask]
    cases s.task? n with
    | none => rfl
    | some t => exact cache_conclude t _
  | report n place x =>
    simp only [perform, withTask]
    cases s.task? n with
    | none => rfl
    | some t => exact cache_collect t place x
  | wake n failure =>
    simp only [perform, withTask]
    cases ht : s.task? n with
    | none => cases failure <;> simp [cacheMoves, computes?, ht, SharedCache.run]
    | some t =>
      obtain ⟨-, rfl⟩ := mem_of_task? ht
      refine (cache_goOn t failure).trans ?_
      cases failure with
      | none => rfl
      | some f => simp [cacheMoves, ht]

/-- Whatever happens does to the cache what it is said to do, and nothing else. -/
theorem cache_step_of {e : Event} (hquiet : ∀ c, s.computesIn? e = some c → s.journal.IsQuiet) :
    (s.step e).cache = (s.cache.run (s.cacheEvents e)).1 := by
  cases e with
  | take place =>
    simp only [computesIn?] at hquiet
    simp only [step, take, cacheEvents]
    revert hquiet
    cases s.ready[place]? with
    | none => exact fun _ => rfl
    | some turn =>
      exact fun hquiet => cache_perform (s := { s with ready := s.ready.eraseIdx place }) hquiet
  | call c => rfl
  | cancel caller => exact cache_abandon _
  | hold isHeld => rfl
  | letGo entity year version =>
    rcases s.letGo_cases entity year version with heq | ⟨flight, -, heq⟩ <;> rw [heq] <;> rfl
  | addLedger l =>
    obtain ⟨source, heq⟩ := s.exists_addLedger_eq l
    rw [heq]
    rfl
  | save d =>
    obtain ⟨registry, journal, heq, -⟩ := s.exists_save_eq d
    rw [heq]
    rfl
  | evict key => rfl
  | invalidate entity year => rfl
  | clear => rfl
  | clock now => rfl

theorem cache_step (hquiet : s.journal.IsQuiet) (e : Event) :
    (s.step e).cache = (s.cache.run (s.cacheEvents e)).1 :=
  cache_step_of fun _ _ => hquiet

/-! ### New computations -/

/-- With what it asks the cache for, a computation comes about: its key has
    neither a live entry nor a registered flight. -/
structure Launches (s : Service) (moves : List (SharedCache.Event Nat)) (c : Computation) :
    Prop where
  asked : ∃ n, moves = [.request n c.key]
  entry : s.cache.get? c.key = .ok none
  flight : s.cache.cache.flight? c.key = none
  number : c.flight = s.cache.cache.misses
  key_eq : CacheKey.ofValues c.entity c.year c.version (.text c.formula.key) = .ok c.key

@[simp]
theorem computations_conclude (t : Task) (x : Attempt Response) :
    (s.conclude t x).computations = s.computations := by
  unfold Service.conclude
  dsimp only
  split
  · rfl
  · split <;> rfl

theorem computations_collect (t : Task) (place : Nat) (x : Attempt Result) :
    (s.collect t place x).computations = s.computations := by
  unfold Service.collect
  split
  · dsimp only
    split <;> rfl
  · rfl

theorem computations_goOn (t : Task) (failure : Option Failure) :
    (s.goOn t failure).computations = s.computations := by
  cases failure with
  | some f => exact computations_conclude t _
  | none => exact computations_conclude t _

/-- A lookup starts one computation or none. -/
theorem computations_lookUp {t : Task} {entity year : Value}
    (hjob : t.job = .figure (.single entity year)) :
    (s.lookUp t entity year).computations = s.computations ∨
      ∃ c, (s.lookUp t entity year).computations = s.computations ++ [c] ∧
        s.Launches t.lookups c := by
  unfold Service.lookUp Task.lookups
  rw [hjob]
  dsimp only
  cases hkey : CacheKey.ofValues entity year t.version (.text t.formula.key) with
  | error f => exact .inl (computations_conclude t _)
  | ok key =>
    dsimp only
    cases hblocked : s.cache.blocked? key with
    | some fault => exact .inl (computations_conclude t _)
    | none =>
      dsimp only
      unfold Service.request SharedCache.request
      rcases s.cache.cache.request_cases s.cache.time key with
        ⟨e, -, -, heq⟩ | ⟨-, n, -, heq⟩ | ⟨hget, hflight, heq⟩ <;> rw [heq]
      · exact .inl (computations_conclude t _)
      · exact .inl rfl
      · refine .inr ⟨_, rfl, ⟨t.number, rfl⟩, ?_, hflight, rfl, hkey⟩
        unfold SharedCache.get?
        rw [hblocked]
        exact congrArg Except.ok hget

theorem launches_of_mem_begin {t : Task} {c : Computation}
    (hc : c ∈ (s.begin t).computations) : c ∈ s.computations ∨ s.Launches t.lookups c := by
  unfold Service.begin at hc
  split at hc
  · rw [computations_conclude] at hc
    exact .inl hc
  · split at hc
    · rename_i entity year hjob
      rcases computations_lookUp (s := s) hjob with heq | ⟨d, heq, hd⟩
      · exact .inl (heq ▸ hc)
      · rw [heq] at hc
        rcases List.mem_append.mp hc with hc | hc
        · exact .inl hc
        · exact .inr (List.mem_singleton.mp hc ▸ hd)
    · exact .inl hc

theorem computations_land (c : Computation) (x : Attempt Result) :
    (s.land c x).computations = s.computations.filter (·.flight != c.flight) := by
  unfold Service.land
  dsimp only
  cases s.cache.flight? c.flight <;> rfl

theorem computations_compute (c : Computation) :
    (s.compute c).computations = s.computations.filter (·.flight != c.flight) := by
  unfold Service.compute
  dsimp only
  split
  · exact computations_land c _
  · exact computations_land c _

theorem mem_computations_of_fetch {c d : Computation}
    (hd : d ∈ (s.fetch c).computations) : d ∈ s.computations := by
  unfold Service.fetch at hd
  split at hd
  · exact hd
  · rw [computations_compute] at hd
    exact List.mem_of_mem_filter hd

/-- Computations come about by lookups only. -/
theorem launches_of_mem_perform {turn : Turn} {c : Computation}
    (hc : c ∈ (s.perform turn).computations) :
    c ∈ s.computations ∨ s.Launches (s.cacheMoves turn) c := by
  cases turn with
  | call call =>
    simp only [perform, takeUp_eq] at hc
    simp only [cacheMoves]
    revert hc
    cases s.registry.prepare call with
    | error f => exact .inl
    | ok prepared =>
      intro hc
      obtain ⟨f, job⟩ := prepared
      rcases launches_of_mem_begin hc with hold | hnew
      · exact .inl hold
      · exact .inr { hnew with }
  | begin n =>
    simp only [perform, withTask] at hc
    simp only [cacheMoves]
    revert hc
    cases s.task? n with
    | none => exact .inl
    | some t => exact launches_of_mem_begin
  | takeOff n =>
    simp only [perform, withComputation, takeOff] at hc
    revert hc
    cases s.computation? n with
    | none => exact .inl
    | some d =>
      dsimp only
      split
      · exact fun hc => .inl (mem_computations_of_fetch
          (s := { s with slots := (s.slots.acquire d.flight).1 }) hc)
      · exact .inl
  | granted n =>
    simp only [perform, withComputation, useGranted] at hc
    revert hc
    cases s.computation? n with
    | none => exact .inl
    | some d =>
      exact fun hc => .inl (mem_computations_of_fetch
        (s := { s with slots := (s.slots.proceed d.flight).1 }.enqueue
          ((s.slots.proceed d.flight).2.map Turn.granted).toList) hc)
  | fetched n =>
    simp only [perform, withComputation] at hc
    revert hc
    cases s.computation? n with
    | none => exact .inl
    | some d =>
      intro hc
      rw [computations_compute] at hc
      exact .inl (List.mem_of_mem_filter hc)
  | deliver n x =>
    simp only [perform, withTask] at hc
    revert hc
    cases s.task? n <;> exact .inl
  | resume n x =>
    simp only [perform, withTask] at hc
    revert hc
    cases s.task? n with
    | none => exact .inl
    | some t => exact fun hc => .inl (computations_conclude t _ ▸ hc)
  | report n place x =>
    simp only [perform, withTask] at hc
    revert hc
    cases s.task? n with
    | none => exact .inl
    | some t => exact fun hc => .inl (computations_collect t place x ▸ hc)
  | wake n failure =>
    simp only [perform, withTask] at hc
    revert hc
    cases s.task? n with
    | none => exact .inl
    | some t => exact fun hc => .inl (computations_goOn t failure ▸ hc)

theorem launches_of_mem_step {e : Event} {c : Computation}
    (hc : c ∈ (s.step e).computations) :
    c ∈ s.computations ∨ s.Launches (s.cacheEvents e) c := by
  cases e with
  | take place =>
    simp only [step, take] at hc
    simp only [cacheEvents]
    revert hc
    cases s.ready[place]? with
    | none => exact .inl
    | some turn =>
      intro hc
      rcases launches_of_mem_perform (s := { s with ready := s.ready.eraseIdx place }) hc
        with hold | hnew
      · exact .inl hold
      · exact .inr { hnew with }
  | letGo entity year version =>
    rcases s.letGo_cases entity year version with heq | ⟨flight, -, heq⟩ <;> rw [heq] at hc <;>
      exact .inl hc
  | addLedger l =>
    obtain ⟨source, heq⟩ := s.exists_addLedger_eq l
    rw [heq] at hc
    exact .inl hc
  | save d =>
    obtain ⟨registry, journal, heq, -⟩ := s.exists_save_eq d
    rw [heq] at hc
    exact .inl hc
  | call | cancel | hold | evict | invalidate | clear | clock => exact .inl hc

/-- Who asks for what is neither held nor under way starts a computation, which
    is ready to take off. -/
theorem begin_launches {t : Task} {n : Nat} {key : CacheKey} (h : t.lookups = [.request n key])
    (hget : s.cache.get? key = .ok none) (hflight : s.cache.cache.flight? key = none) :
    ∃ c, (s.begin t).computations = s.computations ++ [c] ∧ .takeOff c.flight ∈ (s.begin t).ready ∧
      CacheKey.ofValues c.entity c.year c.version (.text c.formula.key) = .ok key := by
  unfold Task.lookups at h
  split at h
  · rename_i entity year hjob
    cases hkey : CacheKey.ofValues entity year t.version (.text t.formula.key) with
    | error f =>
      rw [hkey] at h
      cases h
    | ok k =>
      rw [hkey] at h
      obtain ⟨-, rfl⟩ : t.number = n ∧ k = key := by simpa using h
      obtain ⟨cache, hrequest, -⟩ := SharedCache.request_started hget hflight
      have hbegin : s.begin t = s.request t entity year k := by
        simp [Service.begin, hjob, Job.check, Service.lookUp, hkey, (SharedCache.get?_eq_ok hget).1]
      rw [hbegin]
      unfold Service.request SharedCache.request
      rw [hrequest]
      exact ⟨⟨s.cache.cache.misses, entity, year, t.version, k, t.formula, t.context⟩, rfl,
        List.mem_append_right _ (List.mem_singleton_self _), hkey⟩
  · cases h

theorem step_launches {e : Event} {n : Nat} {key : CacheKey} (h : s.cacheEvents e = [.request n key])
    (hget : s.cache.get? key = .ok none) (hflight : s.cache.cache.flight? key = none) :
    ∃ c, (s.step e).computations = s.computations ++ [c] ∧ .takeOff c.flight ∈ (s.step e).ready ∧
      CacheKey.ofValues c.entity c.year c.version (.text c.formula.key) = .ok key := by
  have hleaves : ∀ tasks, leaves tasks ≠ [.request n key] := by
    intro tasks heq
    have hmem : .request n key ∈ leaves tasks := heq ▸ List.mem_singleton_self _
    simp [leaves] at hmem
  cases e with
  | take place =>
    simp only [cacheEvents] at h
    simp only [step, take]
    revert h
    cases s.ready[place]? with
    | none => simp
    | some turn =>
      simp only [Option.map_some, Option.getD_some]
      intro h
      unfold cacheMoves at h
      split at h
      · rename_i c
        simp only [perform, takeUp_eq]
        revert h
        cases s.registry.prepare c with
        | error f => simp
        | ok prepared =>
          intro h
          exact begin_launches (s := { s with ready := s.ready.eraseIdx place }.enrol c _ _) h hget
            hflight
      · rename_i m
        simp only [perform, withTask, task?]
        revert h
        unfold task?
        cases s.tasks.find? (·.number == m) with
        | none => simp
        | some t =>
          intro h
          exact begin_launches (s := { s with ready := s.ready.eraseIdx place }) h hget hflight
      · rename_i m f
        revert h
        cases s.task? m with
        | none => simp
        | some t => exact fun h => absurd h (hleaves _)
      · revert h
        cases s.computes? turn <;> simp [landing]
  | cancel caller => exact absurd h (hleaves _)
  | _ => simp [cacheEvents] at h

/-! ### Computations that fetch -/

theorem mem_of_computes? {turn : Turn} {c : Computation} (h : s.computes? turn = some c) :
    c ∈ s.computations := by
  have hnow : ∀ {c d : Computation}, s.fetchesNow? d = some c → d = c := by
    intro c d hd
    unfold fetchesNow? at hd
    split at hd
    · cases hd
    · exact Option.some.inj hd
  cases turn with
  | takeOff n =>
    obtain ⟨d, hd, hc⟩ := Option.bind_eq_some_iff.mp h
    split at hc
    · exact hnow hc ▸ (mem_of_computation? hd)
    · cases hc
  | granted n =>
    obtain ⟨d, hd, hc⟩ := Option.bind_eq_some_iff.mp h
    exact hnow hc ▸ (mem_of_computation? hd)
  | fetched n => exact mem_of_computation? h
  | _ => cases h

theorem cacheMoves_of_computes? {turn : Turn} {c : Computation} (h : s.computes? turn = some c) :
    s.cacheMoves turn = [s.landing c] := by
  cases turn with
  | takeOff | granted | fetched =>
    simp only [cacheMoves, h]
    rfl
  | _ => cases h

theorem mem_of_computesIn? {e : Event} {c : Computation} (h : s.computesIn? e = some c) :
    c ∈ s.computations := by
  cases e with
  | take place =>
    obtain ⟨turn, -, hc⟩ := Option.bind_eq_some_iff.mp h
    exact mem_of_computes? hc
  | _ => cases h

/-- Its flight lands with what it comes to. -/
theorem cacheEvents_of_computesIn? {e : Event} {c : Computation} (h : s.computesIn? e = some c) :
    s.cacheEvents e = [s.landing c] := by
  cases e with
  | take place =>
    obtain ⟨turn, hturn, hc⟩ := Option.bind_eq_some_iff.mp h
    simp only [cacheEvents, hturn]
    exact cacheMoves_of_computes? hc
  | _ => cases h

theorem no_landing_lookups (t : Task) (n : Nat) (x : Attempt Result) :
    .land n x ∉ t.lookups := by
  unfold Task.lookups
  split
  · split <;> simp
  · simp

/-- Flights land by computations that fetch. -/
theorem computesIn?_of_land {e : Event} {n : Nat} {x : Attempt Result}
    (h : .land n x ∈ s.cacheEvents e) : ∃ c, s.computesIn? e = some c := by
  have hleaves : ∀ tasks, .land n x ∉ leaves tasks := by simp [leaves]
  have hturn : ∀ turn, .land n x ∈ s.cacheMoves turn → ∃ c, s.computes? turn = some c := by
    intro turn hmem
    unfold cacheMoves at hmem
    split at hmem
    · split at hmem
      · exact absurd hmem (no_landing_lookups _ n x)
      · cases hmem
    · rename_i m
      cases ht : s.task? m with
      | none => simp [ht] at hmem
      | some t =>
        rw [ht] at hmem
        exact absurd hmem (no_landing_lookups t n x)
    · rename_i m f
      cases ht : s.task? m with
      | none => simp [ht] at hmem
      | some t =>
        rw [ht] at hmem
        exact absurd hmem (hleaves _)
    · obtain ⟨c, hc, -⟩ := by simpa using hmem
      exact ⟨c, hc⟩
  cases e with
  | take place =>
    simp only [cacheEvents] at h
    simp only [computesIn?]
    revert h
    cases s.ready[place]? with
    | none => simp
    | some turn => exact hturn turn
  | cancel caller => exact absurd h (hleaves _)
  | _ => simp [cacheEvents] at h

/-- What happens ends the flight of one computation, or no flight. -/
theorem cacheEvents_cases (s : Service) (e : Event) :
    (∃ c, s.computesIn? e = some c ∧ s.cacheEvents e = [s.landing c]) ∨
      ∀ n x, .land n x ∉ s.cacheEvents e := by
  cases hc : s.computesIn? e with
  | some c => exact .inl ⟨c, rfl, cacheEvents_of_computesIn? hc⟩
  | none =>
    refine .inr fun n x hmem => ?_
    obtain ⟨c, hsome⟩ := computesIn?_of_land hmem
    rw [hc] at hsome
    cases hsome

theorem cacheTrace_concat (s : Service) (events : List Event) (e : Event) :
    s.cacheTrace (events ++ [e]) = s.cacheTrace events ++ (s.run events).cacheEvents e := by
  induction events generalizing s with
  | nil => exact List.append_nil _
  | cons e' events ih =>
    simp only [List.cons_append, cacheTrace, ih, List.append_assoc]
    rfl

end Service

/-! ### Computations and flights -/

/-- The flight of a computation has started, for the key of what is computed. -/
structure Computation.Started (w : TracedCache Nat) (c : Computation) : Prop where
  start : (c.flight, c.key) ∈ w.starts
  key_eq : CacheKey.ofValues c.entity c.year c.version (.text c.formula.key) = .ok c.key

theorem Computation.Started.run {w : TracedCache Nat} {c : Computation} (hc : c.Started w)
    (es : List (SharedCache.Event Nat)) : c.Started (w.run es).1 :=
  ⟨(w.starts_run es).subset hc.start, hc.key_eq⟩

namespace Service

variable {s : Service} {w : TracedCache Nat}

theorem Launches.started {moves : List (SharedCache.Event Nat)} {c : Computation}
    (hc : s.Launches moves c) (hshared : w.shared = s.cache) : c.Started (w.run moves).1 := by
  obtain ⟨n, rfl⟩ := hc.asked
  refine ⟨?_, hc.key_eq⟩
  rw [TracedCache.run_single, hc.number, ← hshared]
  exact TracedCache.step_start (hshared ▸ hc.entry) (hshared ▸ hc.flight) n

theorem started_step (hshared : w.shared = s.cache)
    (hs : ∀ c ∈ s.computations, c.Started w) (e : Event) :
    ∀ c ∈ (s.step e).computations, c.Started (w.run (s.cacheEvents e)).1 := by
  intro c hc
  rcases launches_of_mem_step hc with hold | hnew
  · exact (hs c hold).run _
  · exact hnew.started hshared

end Service

end KeyFigures
