/-
  KeyFigures/Proofs/Service/Effort.lean
  =====================================
  **How many turns a call takes.**

  What is ready, under way and waited for still takes some turns: a single
  figure at most three after it began, a part one more for its report, and so
  on (`Service.effort`).  Every turn that is performed makes this less
  (`Service.effort_perform`), and a call starts below the bound that `settle`
  allows for.
-/
import KeyFigures.Proofs.Service.Liveness
import KeyFigures.Proofs.Service.Tower

namespace KeyFigures

/-! ### The effort of a job -/

/-- How many turns a figure takes after it began and before its end is
    reported. -/
def Figure.work : Figure → Nat
  | .single _ _ => 3
  | .sum entities _ => 6 * (Value.distinct entities).length

/-- How many turns a job takes: a part also begins and is reported, which may
    wake the whole. -/
def Job.work : Job → Nat
  | .figure g => g.work
  | .series entities first last =>
    ((series entities first last).parts.map fun g => 3 + g.work).sum

namespace Job

theorem work_eq {job : Job} (h : job.isComposite) :
    job.work = (job.parts.map fun g => 3 + g.work).sum := by
  match job, h with
  | .figure (.sum entities year), _ =>
    show 6 * (Value.distinct entities).length =
      (((Value.distinct entities).map fun entity => Figure.single entity year).map
        fun g => 3 + g.work).sum
    rw [List.map_map]
    simp [Function.comp_def, Figure.work, Nat.mul_comm]
  | .series entities first last, _ => rfl

theorem length_distinct_le (items : List Value) :
    (Value.distinct items).length ≤ items.length := by
  induction items with
  | nil => exact Nat.le_refl 0
  | cons v rest ih =>
    have hfilter := List.length_filter_le (!v.same ·) (Value.distinct rest)
    simp only [Value.distinct, List.length_cons]
    omega

theorem work_ofYear_le (entities : List Value) (year : Value) :
    (Figure.ofYear entities year).work ≤ 6 * entities.length + 3 := by
  unfold Figure.ofYear
  split
  · simp [Figure.work]
  · have hlength := length_distinct_le entities
    simp only [Figure.work]
    omega

/-- The turns of a job are no more than its size allows for. -/
theorem work_le (job : Job) : job.work + 3 ≤ 8 * (job.size + 1) := by
  match job with
  | .figure (.single entity year) => simp [work, Figure.work, size]
  | .figure (.sum entities year) =>
    have hlength := length_distinct_le entities
    simp only [work, Figure.work, size]
    omega
  | .series entities first last =>
    have hparts := List.sum_le_card_nsmul
      ((series entities first last).parts.map fun g => 3 + g.work) (6 * (entities.length + 1)) (by
        intro n hn
        obtain ⟨g, hg, rfl⟩ := List.mem_map.mp hn
        obtain ⟨year, -, rfl⟩ := List.mem_map.mp hg
        have hyear := work_ofYear_le entities (.int year)
        omega)
    have hlength : ((series entities first last).parts.map fun g => 3 + g.work).length =
        (yearsOf first last).length := by
      simp [parts]
    rw [hlength, smul_eq_mul, Nat.mul_left_comm] at hparts
    simp only [work, size]
    omega

end Job

namespace Service

variable {w : Surroundings} {h : History} {s : Service} {t : Task} {awaited : String → Prop}

/-- What a task still takes if it is yet to begin. -/
def workOf (s : Service) (n : Nat) : Nat := ((s.task? n).map (·.job.work)).getD 0

/-- How many turns a turn stands for. -/
def cost (s : Service) : Turn → Nat
  | .call c => 3 + ((c.job.toOption).map Job.work).getD 0
  | .begin n => 1 + s.workOf n
  | .deliver _ _ | .report _ _ _ => 2
  | .takeOff _ | .granted _ | .fetched _ | .resume _ _ | .wake _ _ => 1

/-- How many turns a service still takes. -/
def effort (s : Service) : Nat :=
  (s.ready.map s.cost).sum + 2 * s.tasks.length +
    2 * (s.cache.flights.map (·.waiting.length)).sum

/-- The costs of what is ready are no higher where no task takes more. -/
theorem sum_cost_le {s' : Service} {ready : List Turn}
    (h : ∀ n, .begin n ∈ ready → s'.workOf n ≤ s.workOf n) :
    (ready.map s'.cost).sum ≤ (ready.map s.cost).sum := by
  refine List.sum_le_sum fun turn hturn => ?_
  cases turn with
  | begin n =>
    have hless := h n hturn
    simp only [cost]
    omega
  | _ => exact Nat.le_refl _

theorem workOf_eq_zero {n : Nat} (h : ∀ t ∈ s.tasks, t.number ≠ n) : s.workOf n = 0 := by
  have hnone : s.task? n = none :=
    List.find?_eq_none.mpr fun t ht => by simpa using h t ht
  unfold workOf
  rw [hnone]
  rfl

/-- Without some of the tasks nothing takes more. -/
theorem workOf_filter_le (q : Nat → Bool) (n : Nat) :
    workOf { s with tasks := s.tasks.filter fun t => q t.number } n ≤ s.workOf n := by
  cases hq : q n with
  | true =>
    have hfind : (s.tasks.filter fun t => q t.number).find? (·.number == n) =
        s.tasks.find? (·.number == n) := by
      rw [List.find?_filter]
      congr 1
      funext t
      by_cases hn : t.number = n <;> simp [hn, hq]
    unfold workOf task?
    rw [hfind]
  | false =>
    rw [workOf_eq_zero]
    · exact Nat.zero_le _
    · rintro t ht rfl
      rw [(List.mem_filter.mp ht).2] at hq
      cases hq

/-- A new task takes nothing from the others. -/
theorem workOf_append {u : Task} (next : Nat) {n : Nat} (hn : n ≠ u.number) :
    workOf { s with tasks := s.tasks ++ [u], nextTask := next } n = s.workOf n := by
  have hfind : (s.tasks ++ [u]).find? (·.number == n) = s.tasks.find? (·.number == n) := by
    rw [List.find?_append]
    simp [hn.symm]
  unfold workOf task?
  rw [hfind]

theorem workOf_map {f : Task → Task}
    (h : ∀ t ∈ s.tasks, (f t).number = t.number ∧ (f t).job = t.job) (n : Nat) : workOf { s with tasks := s.tasks.map f } n = s.workOf n := by
  show (((s.tasks.map f).find? (·.number == n)).map (·.job.work)).getD 0 =
    ((s.tasks.find? (·.number == n)).map (·.job.work)).getD 0
  revert h
  induction s.tasks with
  | nil => exact fun _ => rfl
  | cons t tasks ih =>
    intro h
    obtain ⟨⟨hnumber, hjob⟩, hrest⟩ := List.forall_mem_cons.mp h
    rw [List.map_cons, List.find?_cons, List.find?_cons, hnumber]
    cases t.number == n with
    | true => simp [hjob]
    | false => exact ih hrest

/-- The effort of a service whose flights are waited for by no more. -/
theorem effort_le {s' : Service} (turns : List Turn) {k : Nat}
    (hready : s'.ready = s.ready ++ turns)
    (hwork : ∀ n, .begin n ∈ s.ready → s'.workOf n ≤ s.workOf n)
    (hmore : (turns.map s'.cost).sum + 2 * s'.tasks.length +
      2 * (s'.cache.flights.map (·.waiting.length)).sum ≤
        2 * s.tasks.length + 2 * (s.cache.flights.map (·.waiting.length)).sum + k) :
    s'.effort ≤ s.effort + k := by
  have hcost := sum_cost_le hwork
  unfold effort
  rw [hready, List.map_append, List.sum_append]
  omega

theorem effort_record {α : Type} (context : Log.Context) (work : Log.Recorded α) :
    (s.record context work).2.effort = s.effort := rfl

/-- The end of a task that is a part makes up for its report. -/
theorem effort_conclude (ht : t ∈ s.tasks) (x : Attempt Response) :
    (s.conclude t x).effort ≤ s.effort := by
  have hlength : (s.tasks.filter (·.number != t.number)).length + 1 ≤ s.tasks.length := by
    exact List.length_filter_lt_length_iff_exists.mpr ⟨t, ht, by simp⟩
  have hwork := fun n (_ : Turn.begin n ∈ s.ready) => s.workOf_filter_le (· != t.number) n
  unfold Service.conclude
  dsimp only
  split
  · refine effort_le [] (k := 0) (List.append_nil _).symm hwork ?_
    simp only [finish, List.map_nil, List.sum_nil]
    omega
  · split
    · refine effort_le [.report _ _ _] (k := 0) rfl hwork ?_
      simp only [enqueue, List.map_cons, List.map_nil, List.sum_cons, List.sum_nil, cost]
      omega
    · refine effort_le [] (k := 0) (List.append_nil _).symm hwork ?_
      simp only [List.map_nil, List.sum_nil]
      omega
    · refine effort_le [.report _ _ _] (k := 0) rfl hwork ?_
      simp only [enqueue, List.map_cons, List.map_nil, List.sum_cons, List.sum_nil, cost]
      omega

/-- One more waits for one of the flights. -/
theorem sum_waiting_join {flights : List (Flight Nat)} (n m : Nat)
    (hnodup : (flights.map (·.number)).Nodup) :
    ((flights.map fun f => if f.number = n then { f with waiting := f.waiting ++ [m] } else f).map
      (·.waiting.length)).sum ≤ (flights.map (·.waiting.length)).sum + 1 := by
  induction flights with
  | nil => simp
  | cons f flights ih =>
    rw [List.map_cons, List.nodup_cons] at hnodup
    simp only [List.map_cons, List.sum_cons]
    split
    · rename_i hf
      have hrest : (flights.map fun f =>
          if f.number = n then { f with waiting := f.waiting ++ [m] } else f) = flights := by
        refine (List.map_congr_left fun g hg => ?_).trans (List.map_id _)
        refine if_neg fun hgn : g.number = n => hnodup.1 ?_
        rw [hf, ← hgn]
        exact List.mem_map_of_mem hg
      rw [hrest]
      simp only [List.length_append, List.length_singleton]
      omega
    · have hrest := ih hnodup.2
      omega

theorem effort_request (hflights : s.aloft.Nodup) (ht : t ∈ s.tasks) (entity year : Value)
    (key : CacheKey) : (s.request t entity year key).effort ≤ s.effort + 3 := by
  unfold Service.request SharedCache.request
  rcases s.cache.cache.request_cases s.cache.time key with
    ⟨e, -, rfl, heq⟩ | ⟨-, n, -, heq⟩ | ⟨-, -, heq⟩
  · rw [heq]
    have hconclude := effort_conclude (s := ({ s with cache := { s.cache with
      cache := { s.cache.cache.refresh e with hits := s.cache.cache.hits + 1 } } }.record t.context
        ((Cache.Lookup.hit e.result).note e.key)).2) ht (.ok (.figure e.result))
    exact hconclude.trans (Nat.le_add_right _ 3)
  · rw [heq]
    have hwaiting := sum_waiting_join n t.number hflights
    dsimp only
    rw [effort_record]
    refine effort_le [] (List.append_nil _).symm (fun _ _ => Nat.le_refl _) ?_
    simp only [List.map_nil, List.sum_nil]
    omega
  · rw [heq]
    refine effort_le [.takeOff _] rfl (fun _ _ => Nat.le_refl _) ?_
    show ([1] : List Nat).sum + 2 * s.tasks.length +
      2 * ((s.cache.flights ++ [(⟨s.cache.cache.misses, key, [t.number]⟩ : Flight Nat)]).map
        (·.waiting.length)).sum ≤ _
    simp only [List.map_append, List.map_cons, List.map_nil, List.sum_append, List.sum_cons,
      List.sum_nil, List.length_singleton]
    omega

theorem effort_lookUp (hflights : s.aloft.Nodup) (ht : t ∈ s.tasks) (entity year : Value) :
    (s.lookUp t entity year).effort ≤ s.effort + 3 := by
  unfold Service.lookUp
  split
  · exact (effort_conclude ht _).trans (Nat.le_add_right _ 3)
  · split
    · exact (effort_conclude ht _).trans (Nat.le_add_right _ 3)
    · exact effort_request hflights ht entity year _

/-! ### New tasks -/

/-- All tasks, and those that are yet to begin, are numbered below the next. -/
structure Below (s : Service) : Prop where
  tasks : ∀ t ∈ s.tasks, t.number < s.nextTask
  begins : ∀ n, .begin n ∈ s.ready → n < s.nextTask

theorem Sound.below (hs : s.Sound w h) : s.Below where
  tasks := by
    intro t ht
    rw [hs.next]
    exact (List.getElem?_eq_some_iff.mp (hs.tasks t ht).errand_eq).1
  begins := by
    intro n hn
    obtain ⟨a, ha⟩ := hs.turns _ hn
    rw [hs.next]
    exact (List.getElem?_eq_some_iff.mp ha).1

theorem Below.addPart (hb : s.Below) (t : Task) (g : Figure) (place : Nat) :
    (s.addPart t g place).Below where
  tasks := by
    intro u hu
    rcases List.mem_append.mp hu with hu | hu
    · exact Nat.lt_succ_of_lt (hb.tasks u hu)
    · obtain rfl := List.mem_singleton.mp hu
      exact Nat.lt_succ_self _
  begins := by
    intro n hn
    rcases List.mem_append.mp hn with hn | hn
    · exact Nat.lt_succ_of_lt (hb.begins n hn)
    · obtain ⟨⟩ := List.mem_singleton.mp hn
      exact Nat.lt_succ_self _

theorem effort_addPart (hb : s.Below) (t : Task) (g : Figure) (place : Nat) :
    (s.addPart t g place).effort ≤ s.effort + (3 + g.work) := by
  have hself : (s.addPart t g place).workOf s.nextTask ≤ g.work := by
    have hnone : s.tasks.find? (·.number == s.nextTask) = none := by
      rw [List.find?_eq_none]
      intro u hu
      have hlt := hb.tasks u hu
      simp only [beq_iff_eq]
      omega
    unfold workOf task? Service.addPart
    rw [List.find?_append, hnone]
    simp [Job.work]
  refine effort_le [.begin s.nextTask] rfl (fun n hn => ?_) ?_
  · have hlt := hb.begins n hn
    exact Nat.le_of_eq (s.workOf_append (s.nextTask + 1) (by
      dsimp only
      omega))
  · simp only [List.map_cons, List.map_nil, List.sum_cons, List.sum_nil, cost]
    simp only [Service.addPart, List.length_append, List.length_singleton] at hself ⊢
    omega

theorem effort_spawn (hb : s.Below) (t : Task) :
    (s.spawn t).effort ≤ s.effort + (t.job.parts.map fun g => 3 + g.work).sum := by
  have hparts : ∀ (gs : List Figure) (k : Nat) (s : Service), s.Below →
      ((gs.zipIdx k).foldl (fun s part => s.addPart t part.1 part.2) s).effort ≤
        s.effort + (gs.map fun g => 3 + g.work).sum := by
    intro gs
    induction gs with
    | nil => exact fun k s _ => Nat.le_add_right _ _
    | cons g gs ih =>
      intro k s hb
      rw [List.zipIdx_cons, List.foldl_cons, List.map_cons, List.sum_cons]
      have hrest := ih (k + 1) _ (hb.addPart t g k)
      have hhead := effort_addPart hb t g k
      dsimp only
      omega
  rw [spawn_eq_foldl]
  exact hparts _ 0 s hb

theorem effort_begin (hb : s.Below) (hflights : s.aloft.Nodup) (ht : t ∈ s.tasks) :
    (s.begin t).effort ≤ s.effort + t.job.work := by
  unfold Service.begin
  split
  · exact (effort_conclude ht _).trans (Nat.le_add_right _ _)
  · split
    · rename_i entity year hjob
      rw [hjob]
      exact effort_lookUp hflights ht entity year
    · rename_i hjob
      have hcomposite : t.job.isComposite := by
        unfold Job.isComposite
        split
        · rename_i heq
          exact absurd heq (hjob _ _)
        · rfl
      rw [Job.work_eq hcomposite]
      exact effort_spawn hb t

theorem effort_takeUp (hb : s.Below) (hflights : s.aloft.Nodup) (c : Call) :
    (s.takeUp c).effort + 1 ≤ s.effort + s.cost (.call c) := by
  rw [takeUp_eq]
  cases hprepared : s.registry.prepare c with
  | error f =>
    have hsame : (s.finish c.caller (.error f) c.context).effort = s.effort := rfl
    simp only [hsame, cost]
    omega
  | ok prepared =>
    obtain ⟨f, job⟩ := prepared
    have hjob : c.job = .ok job := by
      unfold Registry.prepare at hprepared
      obtain ⟨f', -, hprepared⟩ := Attempt.bind_eq_ok.mp hprepared
      obtain ⟨job', hjob, hprepared⟩ := Attempt.bind_eq_ok.mp hprepared
      cases hprepared
      exact hjob
    have hbelow : (s.enrol c f job).Below := by
      refine ⟨fun u hu => ?_, fun n hn => Nat.lt_succ_of_lt (hb.begins n hn)⟩
      rcases List.mem_append.mp hu with hu | hu
      · exact Nat.lt_succ_of_lt (hb.tasks u hu)
      · obtain rfl := List.mem_singleton.mp hu
        exact Nat.lt_succ_self _
    have henrol : (s.enrol c f job).effort ≤ s.effort + 2 := by
      refine effort_le [] (List.append_nil _).symm (fun n hn => ?_) ?_
      · have hlt := hb.begins n hn
        exact Nat.le_of_eq (s.workOf_append (u := s.taskOf c f job) (s.nextTask + 1)
          (Nat.ne_of_lt hlt))
      · show 0 + 2 * (s.tasks ++ [s.taskOf c f job]).length +
          2 * (s.cache.flights.map (·.waiting.length)).sum ≤ _
        simp only [List.length_append, List.length_singleton]
        omega
    have hbegin := effort_begin hbelow hflights (t := s.taskOf c f job)
      (List.mem_append_right _ List.mem_cons_self)
    have hwork : (s.taskOf c f job).job.work = job.work := rfl
    have hcost : s.cost (.call c) = 3 + job.work := by
      simp [cost, hjob, Except.toOption]
    dsimp only
    omega

/-! ### Parts and flights -/

theorem effort_collect (hnumbers : (s.tasks.map (·.number)).Nodup) (ht : t ∈ s.tasks)
    (place : Nat) (x : Attempt Result) : (s.collect t place x).effort ≤ s.effort + 1 := by
  unfold Service.collect
  cases x with
  | error f =>
    refine effort_le [.wake _ _] rfl (fun _ _ => Nat.le_refl _) ?_
    simp only [enqueue, List.map_cons, List.map_nil, List.sum_cons, List.sum_nil, cost]
    omega
  | ok r =>
    have hwork : ∀ n, workOf { s with tasks := s.tasks.map fun u =>
        if u.number = t.number then { t with results := t.results ++ [(place, r)] } else u } n ≤
          s.workOf n := by
      refine fun n => Nat.le_of_eq (workOf_map (fun u hu => ?_) n)
      split
      · rename_i heq
        rw [List.inj_on_of_nodup_map hnumbers hu ht heq]
        exact ⟨rfl, rfl⟩
      · exact ⟨rfl, rfl⟩
    dsimp only
    split
    · refine effort_le [.wake _ _] rfl (fun n _ => hwork n) ?_
      simp only [enqueue, List.map_cons, List.map_nil, List.sum_cons, List.sum_nil, cost,
        List.length_map]
      omega
    · refine effort_le [] (List.append_nil _).symm (fun n _ => hwork n) ?_
      simp only [List.map_nil, List.sum_nil, List.length_map]
      omega

theorem effort_abandon (dropped : List Task) : (s.abandon dropped).effort ≤ s.effort := by
  have hlength := List.length_filter_le (fun t => !dropped.any (·.number == t.number)) s.tasks
  have hwaiting : ((s.abandon dropped).cache.flights.map (·.waiting.length)).sum ≤
      (s.cache.flights.map (·.waiting.length)).sum := by
    unfold Service.abandon
    rw [foldl_leave]
    simp only [List.map_map]
    exact List.sum_le_sum fun f _ => List.length_filter_le _ _
  refine effort_le [] (k := 0) (List.append_nil _).symm
    (fun n _ => s.workOf_filter_le (fun n => !dropped.any (·.number == n)) n) ?_
  simp only [List.map_nil, List.sum_nil]
  simp only [Service.abandon] at hwaiting ⊢
  omega

theorem effort_goOn (hs : s.Sound w h) (ht : t ∈ s.tasks) (failure : Option Failure) :
    (s.goOn t failure).effort ≤ s.effort := by
  cases failure with
  | some f => exact (effort_conclude (hs.mem_abandon ht) _).trans (effort_abandon _)
  | none => exact effort_conclude (s := (s.record t.context t.respond).2) ht _

theorem effort_land (c : Computation) (x : Attempt Result) : (s.land c x).effort ≤ s.effort := by
  unfold Service.land
  dsimp only
  cases hfind : s.cache.flight? c.flight with
  | none => exact Nat.le_refl _
  | some f =>
    obtain ⟨hf, -⟩ := SharedCache.mem_of_flight? hfind
    have hwaiting := sum_filter_add_le (f := (·.waiting.length)) (q := (·.number != f.number)) hf
      (by simp)
    refine effort_le (f.waiting.map _) (k := 0) rfl (fun _ _ => Nat.le_refl _) ?_
    have hturns : ∀ (s' : Service) (x : Attempt Result),
        ((f.waiting.map fun task => Turn.deliver task x).map s'.cost).sum =
          2 * f.waiting.length := by
      intro s' x
      simp [List.map_map, Function.comp_def, cost, Nat.mul_comm]
    rw [hturns]
    show 2 * f.waiting.length + 2 * s.tasks.length +
      2 * ((s.cache.flights.filter (·.number != f.number)).map (·.waiting.length)).sum ≤ _
    omega

/-- Nobody waits for a slot that is given back. -/
theorem effort_releaseSlot (hqueue : s.slots.queue = []) : s.releaseSlot.effort = s.effort := by
  have hrelease : s.slots.release = ({ s.slots with free := s.slots.free + 1 }, none) :=
    Slots.grant_of_queue hqueue
  unfold Service.releaseSlot Service.enqueue
  rw [hrelease]
  show effort { s with slots := _, ready := s.ready ++ [] } = s.effort
  rw [List.append_nil]
  rfl

theorem effort_compute (hqueue : s.slots.queue = []) (c : Computation) :
    (s.compute c).effort ≤ s.effort := by
  have hreleased := effort_releaseSlot (s := ({ s with fetches := s.fetches + 1 }.record c.bound
    (s.source.fetch c.entity c.year c.version)).2) hqueue
  unfold Service.compute
  dsimp only
  split
  · exact (effort_land c _).trans (Nat.le_of_eq hreleased)
  · exact (effort_land c _).trans (Nat.le_of_eq hreleased)

theorem effort_fetch (hqueue : s.slots.queue = []) (c : Computation) :
    (s.fetch c).effort ≤ s.effort := by
  unfold Service.fetch
  split
  · exact Nat.le_refl _
  · exact effort_compute hqueue c

theorem effort_takeOff (hqueue : s.slots.queue = []) (c : Computation) :
    (s.takeOff c).effort ≤ s.effort := by
  unfold Service.takeOff Slots.acquire
  cases s.slots.isBusy with
  | true => exact Nat.le_refl _
  | false =>
    exact effort_fetch (s := { s with slots := { s.slots with free := s.slots.free - 1 } }) hqueue c

theorem effort_useGranted (hqueue : s.slots.queue = []) (c : Computation) :
    (s.useGranted c).effort ≤ s.effort := by
  have hproceed : s.slots.proceed c.flight =
      ({ s.slots with granted := s.slots.granted.erase c.flight }, none) :=
    Slots.grant_of_queue hqueue
  unfold Service.useGranted
  rw [hproceed]
  refine (effort_fetch (by exact hqueue) c).trans (Nat.le_of_eq ?_)
  show effort { s with slots := _, ready := s.ready ++ [] } = s.effort
  rw [List.append_nil]
  rfl

/-! ### Turns -/

/-- Every turn that is performed leaves less to do. -/
theorem effort_perform {turn : Turn} (hl : s.Live awaited (some turn)) (hs : s.Sound w h)
    (hqueue : s.slots.queue = []) :
    (s.perform turn).effort + 1 ≤ s.effort + s.cost turn := by
  have htask : ∀ {n : Nat} {next : Task → Service} {k : Nat},
      (∀ t ∈ s.tasks, t.number = n → (next t).effort ≤ s.effort + k) →
        (s.withTask n next).effort ≤ s.effort + k :=
    fun {_ _ k} hnext => withTask_of (P := fun s' => s'.effort ≤ s.effort + k)
      (fun _ => Nat.le_add_right _ _) hnext
  have hcomputation : ∀ {n : Nat} {next : Computation → Service},
      (∀ c, (next c).effort ≤ s.effort) → (s.withComputation n next).effort ≤ s.effort :=
    fun hnext => withComputation_of (P := fun s' => s'.effort ≤ s.effort)
      (fun _ => Nat.le_refl _) fun c _ _ => hnext c
  cases turn with
  | call c => exact effort_takeUp hs.below hl.numbers c
  | begin n =>
    have hbegin : (s.withTask n s.begin).effort ≤ s.effort + s.workOf n := by
      unfold withTask workOf
      cases ht : s.task? n with
      | none => exact Nat.le_add_right _ _
      | some t => exact effort_begin hs.below hl.numbers (mem_of_task? ht).1
    simp only [perform, cost]
    omega
  | takeOff n => exact Nat.succ_le_succ (hcomputation fun c => effort_takeOff hqueue c)
  | granted n => exact Nat.succ_le_succ (hcomputation fun c => effort_useGranted hqueue c)
  | fetched n => exact Nat.succ_le_succ (hcomputation fun c => effort_compute hqueue c)
  | deliver n x =>
    refine Nat.succ_le_succ (htask (k := 1) fun t _ _ => ?_)
    refine effort_le [.resume n x] rfl (fun _ _ => Nat.le_refl _) ?_
    simp only [enqueue, List.map_cons, List.map_nil, List.sum_cons, List.sum_nil, cost]
    omega
  | resume n x =>
    exact Nat.succ_le_succ (htask (k := 0) fun t ht _ => effort_conclude ht _)
  | report n place x =>
    exact Nat.succ_le_succ (htask (k := 1) fun t ht _ => effort_collect hs.numbers ht place x)
  | wake n failure =>
    exact Nat.succ_le_succ (htask (k := 0) fun t ht _ => effort_goOn hs ht failure)

end Service

end KeyFigures
