/-
  KeyFigures/Proofs/Service/Requests.lean
  =======================================
  **A request and a direct call are answered alike.**

  A call that is made by a request leaves a record, and its entities are told
  apart before it is known whether there is more than one.  Neither matters to
  what a service does: two services that differ in records and in the repeats of
  sums have the same essence (`Service.essence`), and whatever happens to both
  leaves them with the same essence (`Service.run_essence`).  The ends of calls
  are part of it.

  So the two ways to ask come to the same (`Service.request_agrees`), except for
  a sum over one entity that is named several times: directly it is a sum, and
  by a request it is the figure of that entity
  (`Service.not_request_agrees`).
-/
import KeyFigures.Proofs.Service.Unobservable

namespace KeyFigures

open Log (Recorded)
open Log.Recorded (Blind KeepsSetup)

/-! ### Sums without repeats -/

theorem Value.distinct_of_pairwise {items : List Value}
    (h : items.Pairwise fun a b => a.same b = false) : Value.distinct items = items := by
  induction items with
  | nil => rfl
  | cons v rest ih =>
    obtain ⟨hv, hrest⟩ := List.pairwise_cons.mp h
    rw [Value.distinct, ih hrest, List.filter_eq_self.mpr fun w hw => by simp [hv w hw]]

theorem Value.distinct_distinct (items : List Value) :
    Value.distinct (Value.distinct items) = Value.distinct items :=
  distinct_of_pairwise (pairwise_distinct items)

theorem Value.all_isKey_distinct {items : List Value} (h : items.all Value.isKey = true) :
    (Value.distinct items).all Value.isKey = true :=
  List.all_eq_true.mpr fun v hv => List.all_eq_true.mp h v (mem_of_mem_distinct hv)

/-- The job with every entity of a sum named once, if they can be told apart. -/
def Job.plain : Job → Job
  | .figure (.sum entities year) =>
    if entities.all Value.isKey then .figure (.sum (Value.distinct entities) year)
    else .figure (.sum entities year)
  | job => job

namespace Job

theorem plain_sum {entities : List Value} (h : entities.all Value.isKey = true) (year : Value) :
    plain (.figure (.sum entities year)) = .figure (.sum (Value.distinct entities) year) :=
  if_pos h

/-- Only a sum over entities that can be told apart is changed. -/
theorem plain_cases (job : Job) : job.plain = job ∨
    ∃ entities year, entities.all Value.isKey = true ∧ job = .figure (.sum entities year) ∧
      job.plain = .figure (.sum (Value.distinct entities) year) := by
  match job with
  | .figure (.single _ _) => exact .inl rfl
  | .series _ _ _ => exact .inl rfl
  | .figure (.sum entities year) =>
    by_cases h : entities.all Value.isKey = true
    · exact .inr ⟨entities, year, h, rfl, plain_sum h year⟩
    · exact .inl (if_neg h)

@[simp]
theorem plain_plain (job : Job) : job.plain.plain = job.plain := by
  rcases job.plain_cases with h | ⟨entities, year, hkeys, -, h⟩
  · rw [h, h]
  · rw [h, plain_sum (Value.all_isKey_distinct hkeys), Value.distinct_distinct]

@[simp]
theorem parts_plain (job : Job) : job.plain.parts = job.parts := by
  rcases job.plain_cases with h | ⟨entities, year, -, rfl, h⟩
  · rw [h]
  · rw [h]
    simp only [parts, Value.distinct_distinct]

@[simp]
theorem check_plain (job : Job) : job.plain.check = job.check := by
  rcases job.plain_cases with h | ⟨entities, year, hkeys, rfl, h⟩
  · rw [h]
  · have hempty : (Value.distinct entities).isEmpty = entities.isEmpty := by
      cases entities <;> rfl
    rw [h]
    simp only [check, Aggregate.entitiesOf, hkeys, Value.all_isKey_distinct hkeys, hempty,
      Value.distinct_distinct]

theorem plain_eq_single {job : Job} {entity year : Value} :
    job.plain = .figure (.single entity year) ↔ job = .figure (.single entity year) := by
  rcases job.plain_cases with h | ⟨entities, year, -, rfl, h⟩
  · rw [h]
  · rw [h]
    simp

end Job

def Task.plain (t : Task) : Task := { t with job := t.job.plain }

namespace Task

variable {t t' : Task}

@[simp]
theorem plain_plain (t : Task) : t.plain.plain = t.plain := by
  simp [plain]

@[simp]
theorem number_plain (t : Task) : t.plain.number = t.number := rfl

/-- Tasks that come to the same are the same but for their jobs, which come to
    the same. -/
theorem eq_of_plain_eq (h : t.plain = t'.plain) :
    ∃ job, t' = { t with job := job } ∧ job.plain = t.job.plain := by
  obtain ⟨number, owner, formula, version, job, context, results⟩ := t'
  unfold plain at h
  simp only [Task.mk.injEq] at h
  obtain ⟨rfl, rfl, rfl, rfl, hjob, rfl, rfl⟩ := h
  exact ⟨job, rfl, hjob.symm⟩

theorem ordered_plain (t : Task) : t.plain.ordered = t.ordered := by
  unfold ordered plain
  simp

theorem isComplete_plain (t : Task) : t.plain.isComplete = t.isComplete := by
  unfold isComplete plain
  simp

/-- A sum only asks for its distinct entities. -/
theorem respond_plain (t : Task) : t.plain.respond = t.respond := by
  have hordered := t.ordered_plain
  obtain ⟨number, owner, formula, version, job, context, results⟩ := t
  rcases job.plain_cases with h | ⟨entities, year, -, rfl, h⟩
  · unfold plain
    dsimp only
    rw [h]
  · unfold plain at hordered ⊢
    dsimp only at hordered ⊢
    rw [h] at hordered ⊢
    unfold respond
    rw [hordered]
    simp only [Value.distinct_distinct]

end Task

/-- The call without its request. -/
def Call.plain (c : Call) : Call := { c with job := c.job.map Job.plain, request := none }

@[simp]
theorem Call.plain_plain (c : Call) : c.plain.plain = c.plain := by
  unfold plain
  cases c.job <;> simp [Except.map]

def Turn.plain : Turn → Turn
  | .call c => .call c.plain
  | turn => turn

@[simp]
theorem Turn.plain_plain (turn : Turn) : turn.plain.plain = turn.plain := by
  cases turn <;> simp [plain]

namespace Service

variable {s s' : Service} {t t' : Task}

/-- What a service does next depends on this much of it. -/
def essence (s : Service) : Service :=
  { s with
    tasks := s.tasks.map Task.plain
    ready := s.ready.map Turn.plain
    journal := { s.journal with records := [] } }

/-- Services of the same essence are the same but for tasks and turns that come
    to the same, and for what was recorded. -/
theorem eq_of_essence_eq (h : s.essence = s'.essence) :
    ∃ tasks ready journal,
      s' = { s with tasks := tasks, ready := ready, journal := journal } ∧
      tasks.map Task.plain = s.tasks.map Task.plain ∧
      ready.map Turn.plain = s.ready.map Turn.plain ∧
      journal.setup = s.journal.setup ∧ journal.context = s.journal.context := by
  refine ⟨s'.tasks, s'.ready, s'.journal, ?_, ?_, ?_, ?_, ?_⟩
  · have hrest := congrArg (fun e : Service =>
      { e with tasks := s'.tasks, ready := s'.ready, journal := s'.journal }) h
    exact hrest.symm
  · exact (congrArg Service.tasks h).symm
  · exact (congrArg Service.ready h).symm
  · exact (congrArg (·.journal.setup) h).symm
  · exact (congrArg (·.journal.context) h).symm

/-! ### Parts of the state -/

theorem essence_with (h : s.essence = s'.essence) {tasks tasks' : List Task}
    (htasks : tasks.map Task.plain = tasks'.map Task.plain) {ready ready' : List Turn}
    (hready : ready.map Turn.plain = ready'.map Turn.plain) (next : Nat) :
    { s with tasks := tasks, ready := ready, nextTask := next }.essence =
      { s' with tasks := tasks', ready := ready', nextTask := next }.essence := by
  have hsame : { s' with tasks := tasks', ready := ready', nextTask := next }.essence =
      { s' with tasks := tasks, ready := ready, nextTask := next }.essence := by
    simp only [essence, htasks, hready]
  rw [hsame]
  exact congrArg (fun e : Service => ({ e with
    tasks := tasks.map Task.plain, ready := ready.map Turn.plain, nextTask := next } : Service)) h

theorem essence_cache (h : s.essence = s'.essence) (cache : SharedCache Nat) :
    { s with cache := cache }.essence = { s' with cache := cache }.essence :=
  congrArg (fun e : Service => ({ e with cache := cache } : Service)) h

theorem map_filter_plain (q : Nat → Bool) (tasks : List Task) :
    (tasks.filter fun t => q t.number).map Task.plain =
      (tasks.map Task.plain).filter fun t => q t.number := by
  rw [List.filter_map]
  rfl

/-- Nothing that was recorded is of the essence. -/
theorem essence_record {α : Type} {work : Recorded α} (context : Log.Context)
    (hwork : KeepsSetup work) : (s.record context work).2.essence = s.essence := by
  have hsetup : (s.record context work).2.journal.setup = s.journal.setup :=
    hwork { s.journal with context := context }
  have hjournal :
      (⟨(s.record context work).2.journal.setup, s.journal.context, []⟩ : Log.Journal) =
        ⟨s.journal.setup, s.journal.context, []⟩ := by
    rw [hsetup]
  exact congrArg (fun journal => ({ s.essence with journal := journal } : Service)) hjournal

theorem essence_record_congr {α : Type} {work : Recorded α} (h : s.essence = s'.essence)
    (context : Log.Context) (hwork : KeepsSetup work) :
    (s.record context work).2.essence = (s'.record context work).2.essence := by
  rw [essence_record context hwork, essence_record context hwork, h]

theorem outcome_record {α : Type} {work : Recorded α} (h : s.essence = s'.essence)
    (context : Log.Context) (hwork : Blind work) :
    (s.record context work).1 = (s'.record context work).1 :=
  hwork.play_eq _ _ (congrArg (·.journal.setup) h)

theorem essence_enqueue (h : s.essence = s'.essence) {turns turns' : List Turn}
    (hturns : turns.map Turn.plain = turns'.map Turn.plain) :
    (s.enqueue turns).essence = (s'.enqueue turns').essence := by
  obtain ⟨tasks, ready, journal, rfl, htasks, hready, -, -⟩ := eq_of_essence_eq h
  exact essence_with h htasks.symm (by simp [hready, hturns]) _

theorem essence_finish (h : s.essence = s'.essence) (caller : String) (x : Attempt Response)
    (context : Log.Context) :
    (s.finish caller x context).essence = (s'.finish caller x context).essence :=
  congrArg (fun e : Service =>
    ({ e with endings := e.endings ++ [(⟨caller, x, context⟩ : Ending)] } : Service)) h

/-! ### Tasks -/

theorem essence_conclude (h : s.essence = s'.essence) (ht : t.plain = t'.plain)
    (x : Attempt Response) : (s.conclude t x).essence = (s'.conclude t' x).essence := by
  obtain ⟨job, rfl, -⟩ := Task.eq_of_plain_eq ht
  have hgone : { s with tasks := s.tasks.filter (·.number != t.number) }.essence =
      { s' with tasks := s'.tasks.filter (·.number != t.number) }.essence := by
    obtain ⟨tasks, ready, journal, rfl, htasks, hready, -, -⟩ := eq_of_essence_eq h
    refine essence_with h ?_ hready.symm _
    rw [map_filter_plain (· != t.number), map_filter_plain (· != t.number), htasks]
  unfold Service.conclude
  dsimp only
  cases t.owner with
  | caller name saved => exact essence_finish hgone _ _ _
  | task number place =>
    rcases x with f | ⟨r | points⟩
    · exact essence_enqueue hgone rfl
    · exact essence_enqueue hgone rfl
    · exact hgone

theorem essence_spawn (h : s.essence = s'.essence) (ht : t.plain = t'.plain) :
    (s.spawn t).essence = (s'.spawn t').essence := by
  obtain ⟨job, rfl, hjob⟩ := Task.eq_of_plain_eq ht
  have hparts : job.parts = t.job.parts := by
    rw [← job.parts_plain, hjob, Job.parts_plain]
  obtain ⟨tasks, ready, journal, rfl, htasks, hready, -, -⟩ := eq_of_essence_eq h
  unfold Service.spawn
  dsimp only
  rw [hparts]
  exact essence_with h (by simp [htasks]) (by simp [hready]) _

theorem essence_abandon (h : s.essence = s'.essence) {dropped dropped' : List Task}
    (hdropped : dropped.map Task.plain = dropped'.map Task.plain) :
    (s.abandon dropped).essence = (s'.abandon dropped').essence := by
  have hnumbers : dropped.map (·.number) = dropped'.map (·.number) := by
    have hmap := congrArg (List.map (·.number)) hdropped
    simpa [List.map_map, Function.comp_def] using hmap
  have hleave : ∀ c : SharedCache Nat,
      dropped.foldl (fun (c : SharedCache Nat) (t : Task) => c.leave t.number) c =
        dropped'.foldl (fun (c : SharedCache Nat) (t : Task) => c.leave t.number) c := by
    intro c
    have hfold : ∀ ts : List Task,
        ts.foldl (fun (c : SharedCache Nat) (t : Task) => c.leave t.number) c =
          (ts.map (·.number)).foldl SharedCache.leave c := fun ts => List.foldl_map.symm
    rw [hfold, hfold, hnumbers]
  have hany : ∀ n, dropped.any (·.number == n) = dropped'.any (·.number == n) := by
    intro n
    have hmap : ∀ ts : List Task,
        ts.any (·.number == n) = (ts.map (·.number)).any (· == n) := by
      intro ts
      rw [List.any_map]
      rfl
    rw [hmap, hmap, hnumbers]
  obtain ⟨tasks, ready, journal, rfl, htasks, hready, -, -⟩ := eq_of_essence_eq h
  have hgone := essence_cache h
    (dropped.foldl (fun (c : SharedCache Nat) (t : Task) => c.leave t.number) s.cache)
  unfold Service.abandon
  simp only [← hleave, ← hany]
  refine essence_with hgone ?_ hready.symm _
  rw [map_filter_plain fun n => !dropped.any (·.number == n),
    map_filter_plain fun n => !dropped.any (·.number == n), htasks]

theorem within_plain (h : s.essence = s'.essence) (n : Nat) :
    (s.within n).map Task.plain = (s'.within n).map Task.plain := by
  have hwithin : ∀ s : Service, (s.within n).map Task.plain =
      ((s.tasks.map Task.plain).filter (·.isPartOf n)) ++
        ((s.tasks.map Task.plain).filter (·.isPartOf n)).flatMap fun p =>
          (s.tasks.map Task.plain).filter (·.isPartOf p.number) := by
    intro s
    unfold within
    simp only [List.map_append, List.map_flatMap, List.filter_map, List.flatMap_map]
    rfl
  rw [hwithin, hwithin, show s.tasks.map Task.plain = s'.tasks.map Task.plain from
    congrArg Service.tasks h]

/-! ### Calls -/

theorem essence_compute_later (h : s.essence = s'.essence) (c : Computation) :
    { s with computations := s.computations ++ [c] }.essence =
      { s' with computations := s'.computations ++ [c] }.essence :=
  congrArg (fun e : Service => ({ e with computations := e.computations ++ [c] } : Service)) h

theorem essence_request (h : s.essence = s'.essence) (ht : t.plain = t'.plain)
    (entity year : Value) (key : CacheKey) :
    (s.request t entity year key).essence = (s'.request t' entity year key).essence := by
  obtain ⟨job, rfl, hjob⟩ := Task.eq_of_plain_eq ht
  have hcache : s'.cache = s.cache := by
    obtain ⟨_, _, _, rfl, -⟩ := eq_of_essence_eq h
    rfl
  unfold Service.request
  rw [hcache]
  dsimp only
  rcases s.cache.request t.number key with ⟨cache, lookup⟩
  have hnoted : ({ s with cache := cache }.record t.context (lookup.note key)).2.essence =
      ({ s' with cache := cache }.record t.context (lookup.note key)).2.essence :=
    essence_record_congr (essence_cache h cache) _ (lookup.composed_note key).keepsSetup
  cases lookup with
  | hit r => exact essence_conclude hnoted ht _
  | joined flight => exact hnoted
  | started flight =>
    have hadded := essence_compute_later hnoted
      ⟨flight, entity, year, t.version, key, t.formula, t.context⟩
    exact essence_enqueue hadded rfl

theorem essence_lookUp (h : s.essence = s'.essence) (ht : t.plain = t'.plain)
    (entity year : Value) : (s.lookUp t entity year).essence = (s'.lookUp t' entity year).essence := by
  obtain ⟨job, rfl, hjob⟩ := Task.eq_of_plain_eq ht
  have hcache : s'.cache = s.cache := by
    obtain ⟨_, _, _, rfl, -⟩ := eq_of_essence_eq h
    rfl
  unfold Service.lookUp
  dsimp only
  split
  · exact essence_conclude h ht _
  · rw [hcache]
    split
    · exact essence_conclude h ht _
    · exact essence_request h ht _ _ _

theorem essence_begin (h : s.essence = s'.essence) (ht : t.plain = t'.plain) :
    (s.begin t).essence = (s'.begin t').essence := by
  obtain ⟨job, rfl, hjob⟩ := Task.eq_of_plain_eq ht
  have hcheck : job.check = t.job.check := by
    rw [← job.check_plain, hjob, Job.check_plain]
  have hsingle : ∀ entity year, t.job = .figure (.single entity year) ↔
      job = .figure (.single entity year) := by
    intro entity year
    rw [← Job.plain_eq_single, ← hjob, Job.plain_eq_single]
  unfold Service.begin
  dsimp only
  rw [hcheck]
  split
  · exact essence_conclude h ht _
  · split
    · rename_i entity year heq
      obtain rfl := (hsingle entity year).mp heq
      exact essence_lookUp h ht entity year
    · rename_i hother
      match job, hsingle, ht with
      | .figure (.single entity year), hsingle, _ =>
        exact absurd ((hsingle entity year).mpr rfl) (hother entity year)
      | .figure (.sum _ _), _, ht => exact essence_spawn h ht
      | .series _ _ _, _, ht => exact essence_spawn h ht

theorem essence_enrol (h : s.essence = s'.essence) {c c' : Call} (hc : c.plain = c'.plain)
    (f : Compiled) {job job' : Job} (hjob : job.plain = job'.plain) :
    (s.taskOf c f job).plain = (s'.taskOf c' f job').plain ∧
      (s.enrol c f job).essence = (s'.enrol c' f job').essence := by
  have htask : (s.taskOf c f job).plain = (s'.taskOf c' f job').plain := by
    obtain ⟨_, _, _, rfl, -⟩ := eq_of_essence_eq h
    obtain ⟨caller, formula, version, asked, request, context⟩ := c
    obtain ⟨caller', formula', version', asked', request', context'⟩ := c'
    simp only [Call.plain, Call.mk.injEq] at hc
    obtain ⟨rfl, -, rfl, -, -, rfl⟩ := hc
    simp only [Task.plain, taskOf, hjob]
  refine ⟨htask, ?_⟩
  have hnoted : ({ s with nextRequest := s.nextRequest + 1 }.record (s.taskOf c f job).context
      (c.note f.key)).2.essence = ({ s' with nextRequest := s'.nextRequest + 1 }.record
        (s'.taskOf c' f job').context (c'.note f.key)).2.essence := by
    rw [essence_record _ (c.composed_note f.key).keepsSetup,
      essence_record _ (c'.composed_note f.key).keepsSetup]
    exact congrArg (fun e : Service => ({ e with nextRequest := e.nextRequest + 1 } : Service)) h
  have htasks : s.tasks.map Task.plain = s'.tasks.map Task.plain := by
    obtain ⟨_, _, _, rfl, htasks, -⟩ := eq_of_essence_eq h
    exact htasks.symm
  have hready : s.ready.map Turn.plain = s'.ready.map Turn.plain := by
    obtain ⟨_, _, _, rfl, -, hready, -⟩ := eq_of_essence_eq h
    exact hready.symm
  have hnext : s'.nextTask = s.nextTask := by
    obtain ⟨_, _, _, rfl, -⟩ := eq_of_essence_eq h
    rfl
  have hadded : (s.tasks ++ [s.taskOf c f job]).map Task.plain =
      (s'.tasks ++ [s'.taskOf c' f job']).map Task.plain := by
    simp [htasks, htask]
  have henrolled := essence_with hnoted hadded hready (s.nextTask + 1)
  have hsame : s'.enrol c' f job' =
      { ({ s' with nextRequest := s'.nextRequest + 1 }.record (s'.taskOf c' f job').context
          (c'.note f.key)).2 with
        tasks := s'.tasks ++ [s'.taskOf c' f job'], nextTask := s.nextTask + 1 } := by
    rw [← hnext]
    rfl
  rw [hsame]
  exact henrolled

theorem prepare_plain (r : Registry) (c : Call) :
    r.prepare c.plain = (r.prepare c).map fun p => (p.1, p.2.plain) := by
  unfold Registry.prepare Call.plain
  dsimp only
  cases r.compile c.formula with
  | error f => rfl
  | ok formula => cases c.job <;> rfl

/-- Calls that come to the same are taken up alike. -/
theorem essence_takeUp (h : s.essence = s'.essence) {c c' : Call} (hc : c.plain = c'.plain) :
    (s.takeUp c).essence = (s'.takeUp c').essence := by
  have hprepare : ((s.registry.prepare c).map fun p => (p.1, p.2.plain)) =
      (s'.registry.prepare c').map fun p => (p.1, p.2.plain) := by
    obtain ⟨_, _, _, rfl, -⟩ := eq_of_essence_eq h
    rw [← prepare_plain, ← prepare_plain, hc]
  have hcaller : c.caller = c'.caller := (congrArg Call.caller hc :)
  have hcontext : c.context = c'.context := (congrArg Call.context hc :)
  rw [takeUp_eq, takeUp_eq, hcaller, hcontext]
  cases hp : s.registry.prepare c with
  | error f =>
    cases hp' : s'.registry.prepare c' with
    | error f' =>
      rw [hp, hp'] at hprepare
      cases hprepare
      exact essence_finish h _ _ _
    | ok p' =>
      rw [hp, hp'] at hprepare
      cases hprepare
  | ok p =>
    cases hp' : s'.registry.prepare c' with
    | error f' =>
      rw [hp, hp'] at hprepare
      cases hprepare
    | ok p' =>
      rw [hp, hp'] at hprepare
      obtain ⟨f, job⟩ := p
      obtain ⟨f', job'⟩ := p'
      obtain ⟨rfl, hjob⟩ := Prod.mk.inj (Except.ok.inj hprepare)
      obtain ⟨htask, henrolled⟩ := essence_enrol h hc f hjob
      exact essence_begin henrolled htask

/-! ### Parts and flights -/

theorem map_replace_plain {tasks tasks' : List Task}
    (h : tasks.map Task.plain = tasks'.map Task.plain) (n : Nat) {u u' : Task}
    (hu : u.plain = u'.plain) :
    (tasks.map fun t => if t.number = n then u else t).map Task.plain =
      (tasks'.map fun t => if t.number = n then u' else t).map Task.plain := by
  have hmap : ∀ (ts : List Task) (u : Task),
      (ts.map fun t => if t.number = n then u else t).map Task.plain =
        (ts.map Task.plain).map fun t => if t.number = n then u.plain else t := by
    intro ts u
    rw [List.map_map, List.map_map]
    refine List.map_congr_left fun t _ => ?_
    show (if t.number = n then u else t).plain = if t.number = n then u.plain else t.plain
    split <;> rfl
  rw [hmap, hmap, h, hu]

theorem essence_collect (h : s.essence = s'.essence) (ht : t.plain = t'.plain) (place : Nat)
    (x : Attempt Result) : (s.collect t place x).essence = (s'.collect t' place x).essence := by
  obtain ⟨job, rfl, hjob⟩ := Task.eq_of_plain_eq ht
  cases x with
  | error f => exact essence_enqueue h rfl
  | ok r =>
    obtain ⟨tasks, ready, journal, rfl, htasks, hready, -, -⟩ := eq_of_essence_eq h
    have hplain : ({ t with results := t.results ++ [(place, r)] } : Task).plain =
        ({ t with job := job, results := t.results ++ [(place, r)] } : Task).plain := by
      simp only [Task.plain, hjob]
    have hcomplete := congrArg Task.isComplete hplain
    rw [Task.isComplete_plain, Task.isComplete_plain] at hcomplete
    have hcollected := essence_with h (map_replace_plain htasks.symm t.number hplain) hready.symm
      s.nextTask
    unfold Service.collect
    dsimp only
    rw [hcomplete]
    split
    · exact essence_enqueue hcollected rfl
    · exact hcollected

theorem essence_resume (h : s.essence = s'.essence) (ht : t.plain = t'.plain)
    (x : Attempt Result) : (s.resume t x).essence = (s'.resume t' x).essence := by
  obtain ⟨job, rfl, hjob⟩ := Task.eq_of_plain_eq ht
  exact essence_conclude h ht _

theorem essence_goOn (h : s.essence = s'.essence) (ht : t.plain = t'.plain)
    (failure : Option Failure) : (s.goOn t failure).essence = (s'.goOn t' failure).essence := by
  obtain ⟨job, rfl, hjob⟩ := Task.eq_of_plain_eq ht
  cases failure with
  | some f => exact essence_conclude (essence_abandon h (within_plain h t.number)) ht _
  | none =>
    have hrespond : { t with job := job }.respond = t.respond := by
      rw [← t.respond_plain, ht, Task.respond_plain]
    have houtcome := outcome_record h t.context t.composed_respond.blind
    have hanswered := essence_record_congr h t.context t.composed_respond.keepsSetup
    unfold Service.goOn
    dsimp only
    rw [hrespond, ← houtcome]
    exact essence_conclude hanswered ht _

theorem essence_slots (h : s.essence = s'.essence) (slots : Slots) :
    { s with slots := slots }.essence = { s' with slots := slots }.essence :=
  congrArg (fun e : Service => ({ e with slots := slots } : Service)) h

theorem essence_releaseSlot (h : s.essence = s'.essence) :
    s.releaseSlot.essence = s'.releaseSlot.essence := by
  obtain ⟨tasks, ready, journal, rfl, -, -, -, -⟩ := eq_of_essence_eq h
  exact essence_enqueue (essence_slots h _) rfl

theorem essence_land (h : s.essence = s'.essence) (c : Computation) (x : Attempt Result) :
    (s.land c x).essence = (s'.land c x).essence := by
  have hdone : { s with computations := s.computations.filter (·.flight != c.flight) }.essence =
      { s' with computations := s'.computations.filter (·.flight != c.flight) }.essence :=
    congrArg (fun e : Service => ({ e with
      computations := e.computations.filter (·.flight != c.flight) } : Service)) h
  obtain ⟨tasks, ready, journal, rfl, -, -, -, -⟩ := eq_of_essence_eq h
  unfold Service.land
  dsimp only
  split
  · exact hdone
  · rename_i f hf
    exact essence_enqueue (essence_record_congr (essence_cache hdone _) _
      (Cache.Landing.composed_note _ _).keepsSetup) rfl

theorem essence_compute (h : s.essence = s'.essence) (c : Computation) :
    (s.compute c).essence = (s'.compute c).essence := by
  obtain ⟨tasks, ready, journal, rfl, -, -, -, -⟩ := eq_of_essence_eq h
  have hcounted : { s with fetches := s.fetches + 1 }.essence =
      { s with tasks := tasks, ready := ready, journal := journal, fetches := s.fetches + 1 }.essence :=
    congrArg (fun e : Service => ({ e with fetches := e.fetches + 1 } : Service)) h
  have hcomposed := s.source.composed_fetch c.entity c.year c.version
  have houtcome := outcome_record hcounted c.bound hcomposed.blind
  have hreleased := essence_releaseSlot (essence_record_congr hcounted c.bound hcomposed.keepsSetup)
  unfold Service.compute
  dsimp only
  rw [← houtcome]
  split
  · exact essence_land hreleased _ _
  · rename_i ledger _
    have hcomposed := composed_evaluation c ledger
    rw [← outcome_record hreleased c.bound hcomposed.blind]
    exact essence_land (essence_record_congr hreleased c.bound hcomposed.keepsSetup) _ _

theorem essence_fetch (h : s.essence = s'.essence) (c : Computation) :
    (s.fetch c).essence = (s'.fetch c).essence := by
  obtain ⟨tasks, ready, journal, rfl, -, -, -, -⟩ := eq_of_essence_eq h
  unfold Service.fetch
  dsimp only
  split
  · exact congrArg (fun e : Service => ({ e with fetching := e.fetching ++ [c.flight] } : Service)) h
  · exact essence_compute h c

theorem essence_takeOff (h : s.essence = s'.essence) (c : Computation) :
    (s.takeOff c).essence = (s'.takeOff c).essence := by
  obtain ⟨tasks, ready, journal, rfl, -, -, -, -⟩ := eq_of_essence_eq h
  unfold Service.takeOff
  dsimp only
  split
  · exact essence_fetch (essence_slots h _) c
  · exact essence_slots h _

theorem essence_useGranted (h : s.essence = s'.essence) (c : Computation) :
    (s.useGranted c).essence = (s'.useGranted c).essence := by
  obtain ⟨tasks, ready, journal, rfl, -, -, -, -⟩ := eq_of_essence_eq h
  exact essence_fetch (essence_enqueue (essence_slots h _) rfl) c

/-! ### Turns -/

theorem task?_plain (h : s.essence = s'.essence) (n : Nat) :
    (s.task? n).map Task.plain = (s'.task? n).map Task.plain := by
  have hfind : ∀ s : Service, (s.task? n).map Task.plain =
      (s.tasks.map Task.plain).find? (·.number == n) := by
    intro s
    rw [List.find?_map]
    rfl
  obtain ⟨tasks, ready, journal, rfl, htasks, -, -, -⟩ := eq_of_essence_eq h
  rw [hfind, hfind, htasks]

theorem essence_withTask (h : s.essence = s'.essence) (n : Nat) {f f' : Task → Service}
    (hf : ∀ t t', t.plain = t'.plain → (f t).essence = (f' t').essence) :
    (s.withTask n f).essence = (s'.withTask n f').essence := by
  have htask := task?_plain h n
  unfold withTask
  cases ht : s.task? n with
  | none =>
    rw [ht] at htask
    rw [Option.map_eq_none_iff.mp htask.symm]
    exact h
  | some t =>
    rw [ht] at htask
    obtain ⟨t', ht', hplain⟩ := Option.map_eq_some_iff.mp htask.symm
    rw [ht']
    exact hf t t' hplain.symm

theorem essence_withComputation (h : s.essence = s'.essence) (n : Nat)
    {f f' : Computation → Service} (hf : ∀ c, (f c).essence = (f' c).essence) :
    (s.withComputation n f).essence = (s'.withComputation n f').essence := by
  obtain ⟨tasks, ready, journal, hs', -, -, -, -⟩ := eq_of_essence_eq h
  have hsame : s'.computation? n = s.computation? n := by
    rw [hs']
    rfl
  unfold withComputation
  rw [hsame]
  cases s.computation? n with
  | none => exact h
  | some c => exact hf c

/-- Turns that come to the same do the same. -/
theorem essence_perform (h : s.essence = s'.essence) {turn turn' : Turn}
    (hturn : turn.plain = turn'.plain) :
    (s.perform turn).essence = (s'.perform turn').essence := by
  have hcall : (∃ c c', turn = .call c ∧ turn' = .call c' ∧ c.plain = c'.plain) ∨
      turn' = turn := by
    cases turn <;> cases turn' <;> simp_all [Turn.plain]
  rcases hcall with ⟨c, c', rfl, rfl, hc⟩ | rfl
  · exact essence_takeUp h hc
  · cases turn' with
    | call c => exact essence_takeUp h rfl
    | begin n => exact essence_withTask h n fun _ _ ht => essence_begin h ht
    | takeOff n => exact essence_withComputation h n fun c => essence_takeOff h c
    | granted n => exact essence_withComputation h n fun c => essence_useGranted h c
    | fetched n => exact essence_withComputation h n fun c => essence_compute h c
    | deliver n x => exact essence_withTask h n fun _ _ _ => essence_enqueue h rfl
    | resume n x => exact essence_withTask h n fun _ _ ht => essence_resume h ht x
    | report n place x => exact essence_withTask h n fun _ _ ht => essence_collect h ht place x
    | wake n failure => exact essence_withTask h n fun _ _ ht => essence_goOn h ht failure

theorem essence_take (h : s.essence = s'.essence) (place : Nat) :
    (s.take place).essence = (s'.take place).essence := by
  obtain ⟨tasks, ready, journal, rfl, htasks, hready, -, -⟩ := eq_of_essence_eq h
  have hturn : (ready[place]?).map Turn.plain = (s.ready[place]?).map Turn.plain := by
    rw [← List.getElem?_map, ← List.getElem?_map, hready]
  unfold Service.take
  dsimp only
  cases hs : s.ready[place]? with
  | none =>
    rw [hs] at hturn
    rw [Option.map_eq_none_iff.mp hturn]
    exact h
  | some turn =>
    rw [hs] at hturn
    obtain ⟨turn', hs', hplain⟩ := Option.map_eq_some_iff.mp hturn
    rw [hs']
    have hrest : (s.ready.eraseIdx place).map Turn.plain =
        (ready.eraseIdx place).map Turn.plain := by
      rw [← List.eraseIdx_map, ← List.eraseIdx_map, hready]
    exact essence_perform (essence_with h htasks.symm hrest s.nextTask) hplain.symm

/-! ### Runs -/

theorem essence_filterReady (h : s.essence = s'.essence) {q : Turn → Bool}
    (hq : ∀ turn, q turn.plain = q turn) :
    { s with ready := s.ready.filter q }.essence =
      { s' with ready := s'.ready.filter q }.essence := by
  have hfilter : ∀ turns : List Turn,
      (turns.filter q).map Turn.plain = (turns.map Turn.plain).filter q := by
    intro turns
    rw [List.filter_map, show q ∘ Turn.plain = q from funext hq]
  obtain ⟨tasks, ready, journal, rfl, htasks, hready, -, -⟩ := eq_of_essence_eq h
  refine essence_with h htasks.symm ?_ s.nextTask
  rw [hfilter, hfilter, hready]

theorem essence_cancel (h : s.essence = s'.essence) (caller : String) :
    (s.cancel caller).essence = (s'.cancel caller).essence := by
  have hdropped : ∀ s : Service, ((s.tasks.filter (·.isOf caller)) ++
      (s.tasks.filter (·.isOf caller)).flatMap fun t => s.within t.number).map Task.plain =
        ((s.tasks.map Task.plain).filter (·.isOf caller)) ++
          ((s.tasks.map Task.plain).filter (·.isOf caller)).flatMap fun t =>
            (s.within t.number).map Task.plain := by
    intro s
    simp only [List.map_append, List.map_flatMap, List.filter_map, List.flatMap_map]
    rfl
  have htasks : s.tasks.map Task.plain = s'.tasks.map Task.plain := by
    obtain ⟨_, _, _, rfl, htasks, -⟩ := eq_of_essence_eq h
    exact htasks.symm
  refine essence_filterReady (essence_abandon h ?_) fun turn => by cases turn <;> rfl
  rw [hdropped, hdropped, htasks]
  simp only [within_plain h]

theorem essence_save (h : s.essence = s'.essence) (d : Definition) :
    (s.save d).2.essence = (s'.save d).2.essence := by
  have hcontext : s'.journal.context = s.journal.context := by
    obtain ⟨_, _, _, rfl, -, -, -, hcontext⟩ := eq_of_essence_eq h
    exact hcontext
  have hregistry : s'.registry = s.registry := by
    obtain ⟨_, _, _, rfl, -⟩ := eq_of_essence_eq h
    rfl
  have hcomposed := s.registry.composed_saveRecorded d
  have houtcome := outcome_record h s.journal.context hcomposed.blind
  have hsaved := essence_record_congr h s.journal.context hcomposed.keepsSetup
  unfold Service.save
  rw [hcontext, hregistry]
  revert houtcome hsaved
  rcases s.record s.journal.context (s.registry.saveRecorded d) with ⟨x, s₁⟩
  rcases s'.record s.journal.context (s.registry.saveRecorded d) with ⟨x', s₁'⟩
  rintro (rfl : x = x') hsaved
  cases x with
  | error f => exact hsaved
  | ok saved =>
    exact congrArg (fun e : Service => ({ e with registry := saved.1 } : Service)) hsaved

theorem essence_withCache (h : s.essence = s'.essence) (cache : Cache) :
    (s.withCache cache).essence = (s'.withCache cache).essence :=
  congrArg (fun e : Service => e.withCache cache) h

/-- Whatever happens to services of the same essence, they keep the same. -/
theorem essence_step (h : s.essence = s'.essence) (e : Event) :
    (s.step e).essence = (s'.step e).essence := by
  have hcache : s'.cache.cache = s.cache.cache := by
    obtain ⟨_, _, _, rfl, -⟩ := eq_of_essence_eq h
    rfl
  cases e with
  | take place => exact essence_take h place
  | call c => exact essence_enqueue h rfl
  | cancel caller => exact essence_cancel h caller
  | hold isHeld => exact congrArg (fun e : Service => ({ e with hold := isHeld } : Service)) h
  | letGo entity year version =>
    have hflights : s'.fetching = s.fetching ∧ s'.computation? = s.computation? := by
      obtain ⟨_, _, _, rfl, -⟩ := eq_of_essence_eq h
      exact ⟨rfl, rfl⟩
    show (s.letGo entity year version).essence = (s'.letGo entity year version).essence
    unfold letGo
    rw [hflights.1, hflights.2]
    dsimp only
    split
    · rename_i flight _
      exact essence_enqueue (congrArg (fun e : Service =>
        ({ e with fetching := e.fetching.erase flight } : Service)) h) rfl
    · exact h
  | addLedger l =>
    obtain ⟨tasks, ready, journal, rfl, -, -, -, -⟩ := eq_of_essence_eq h
    show ((s.addLedger l).toOption.getD s).essence = ((Service.addLedger _ l).toOption.getD _).essence
    unfold addLedger
    dsimp only
    cases s.source.add l with
    | error f => exact h
    | ok source => exact congrArg (fun e : Service => ({ e with source := source } : Service)) h
  | save d => exact essence_save h d
  | evict key =>
    show (s.evict key).essence = (s'.evict key).essence
    unfold Service.evict
    rw [hcache]
    exact essence_withCache h _
  | invalidate entity year =>
    have hcontext : s'.journal.context = s.journal.context := by
      obtain ⟨_, _, _, rfl, -, -, -, hcontext⟩ := eq_of_essence_eq h
      exact hcontext
    show (s.invalidate entity year).2.essence = (s'.invalidate entity year).2.essence
    unfold Service.invalidate
    rw [hcache, hcontext]
    exact essence_record_congr (essence_withCache h _) _
      (Cache.composed_noteInvalidated entity year _).keepsSetup
  | clear =>
    show (s.clear).essence = (s'.clear).essence
    unfold Service.clear
    rw [hcache]
    exact essence_withCache h _
  | clock now =>
    exact congrArg (fun e : Service => ({ e with cache := { e.cache with now := now } } : Service)) h

theorem essence_run (h : s.essence = s'.essence) (events : List Event) :
    (s.run events).essence = (s'.run events).essence := by
  induction events generalizing s s' with
  | nil => exact h
  | cons e rest ih => exact ih (essence_step h e)

end Service

/-! ### Two ways to ask -/

/-- What can be asked for directly and by a request. -/
inductive Question where
  | single (entity year : Value)
  | series (entities : List Value) (first last : Value)
  | aggregate (entities : List Value) (year : Value)

namespace Question

/-- The call that asks directly. -/
def direct (caller : String) (formula : FormulaSource) (version : Value) : Question → Call
  | .single entity year => .single caller entity year formula version
  | .series entities first last => .series caller (.list entities) first last formula version
  | .aggregate entities year => .aggregate caller (.list entities) year formula version

def request (formula : FormulaSource) (version : Value) : Question → Attempt Request
  | .single entity year => Request.single entity year formula version
  | .series entities first last => Request.series entities first last formula version
  | .aggregate entities year => Request.aggregate entities year formula version

def entities : Question → List Value
  | .single entity _ => [entity]
  | .series entities _ _ => entities
  | .aggregate entities _ => entities

def first : Question → Value
  | .single _ year => year
  | .series _ first _ => first
  | .aggregate _ year => year

def last : Question → Value
  | .single _ year => year
  | .series _ _ last => last
  | .aggregate _ year => year

/-- There are entities, they can be told apart, and the years are in order. -/
structure IsProper (q : Question) : Prop where
  entities_ne_nil : q.entities ≠ []
  areKeys : q.entities.all Value.isKey = true
  ordered : q.last.before? q.first = some false

/-- A sum over one entity that is named more than once. -/
def RepeatsOne : Question → Prop
  | .aggregate entities _ => 1 < entities.length ∧ (Value.distinct entities).length = 1
  | _ => False

instance (q : Question) : Decidable q.RepeatsOne := by
  cases q <;> unfold RepeatsOne <;> infer_instance

end Question

/-- A request is made if its parts fit together. -/
theorem Request.exists_make {entities : List Value} {first last : Value}
    (formula : FormulaSource) (version : Value) (shape : Shape)
    (hkeys : entities.all Value.isKey = true) (hne : entities ≠ [])
    (hordered : last.before? first = some false)
    (hyear : shape ≠ .series → first.same last = true)
    (hsingle : shape = .single → (Value.distinct entities).length ≤ 1) :
    ∃ r, make entities [first, last] formula version (some shape) = .ok r ∧
      r.entities = Value.distinct entities ∧ r.first = first ∧ r.last = last ∧
      r.formula = formula ∧ r.version = version ∧ r.shape = shape := by
  have hdistinct : Value.distinct entities ≠ [] := by
    cases entities with
    | nil => exact absurd rfl hne
    | cons v rest => exact List.cons_ne_nil _ _
  unfold make
  rw [dif_pos hkeys]
  dsimp only
  rw [dif_neg hdistinct]
  simp only [yearsOf, bind, Except.bind]
  split
  · rename_i h
    simp [hordered] at h
  · rename_i h
    simp [hordered] at h
  · have hseries : ¬ (shape ≠ .series ∧ first.same last = false) := fun ⟨h, hsame⟩ => by
      simp [hyear h] at hsame
    have hone : ¬ (shape = .single ∧ 1 < (Value.distinct entities).length) := fun ⟨h, hlt⟩ =>
      absurd (hsingle h) (Nat.not_le.mpr hlt)
    refine ⟨_, (dif_neg hseries).trans (dif_neg hone), ?_⟩
    exact ⟨rfl, rfl, rfl, rfl, rfl, rfl⟩

theorem Figure.ofYear_eq_sum {entities : List Value} (h : 1 < entities.length) (year : Value) :
    ofYear entities year = .sum entities year := by
  match entities, h with
  | _ :: _ :: _, _ => rfl

/-- Naming entities repeatedly makes no difference to a sum over several. -/
theorem Question.plain_ofYear {entities : List Value} {year : Value} (hne : entities ≠ [])
    (hkeys : entities.all Value.isKey = true) (hrepeats : ¬ (aggregate entities year).RepeatsOne) :
    (Job.figure (.ofYear entities year)).plain =
      (Job.figure (.ofYear (Value.distinct entities) year)).plain := by
  match entities with
  | [] => exact absurd rfl hne
  | [entity] => rfl
  | v :: w :: rest =>
    have hlong : 1 < (v :: w :: rest).length := Nat.succ_lt_succ (Nat.succ_pos _)
    have hseveral : 1 < (Value.distinct (v :: w :: rest)).length := by
      have hpos : 0 < (Value.distinct (v :: w :: rest)).length := Nat.succ_pos _
      have hnotOne : (Value.distinct (v :: w :: rest)).length ≠ 1 := fun h =>
        hrepeats ⟨hlong, h⟩
      omega
    rw [Figure.ofYear_eq_sum hseveral, Figure.ofYear_eq_sum hlong, Job.plain_sum hkeys, Job.plain_sum (Value.all_isKey_distinct hkeys), Value.distinct_distinct]

/-- Unless it repeats one entity, a question comes to the same in both ways. -/
theorem Question.exists_request {q : Question} (hq : q.IsProper) (hrepeats : ¬ q.RepeatsOne)
    (caller : String) (formula : FormulaSource) (version : Value) :
    ∃ r, q.request formula version = .ok r ∧
      (q.direct caller formula version).plain = (Call.ofRequest caller r).plain := by
  cases q with
  | single entity year =>
    obtain ⟨r, hr, hentities, hfirst, hlast, hformula, hversion, hshape⟩ := Request.exists_make
      formula version .single hq.areKeys hq.entities_ne_nil hq.ordered
      (fun _ => Value.same_self year) (fun _ => Nat.le_refl 1)
    refine ⟨r, hr, ?_⟩
    have hjob : Job.ofRequest r = .figure (.single entity year) := by
      unfold Job.ofRequest Request.isSeries
      rw [hshape, hentities, hfirst]
      rfl
    simp only [direct, Call.single, Call.ofRequest, Call.plain, hjob, hformula, hversion]
  | series entities first last =>
    obtain ⟨r, hr, hentities, hfirst, hlast, hformula, hversion, hshape⟩ := Request.exists_make
      formula version .series hq.areKeys hq.entities_ne_nil hq.ordered
      (fun h => absurd rfl h) nofun
    refine ⟨r, hr, ?_⟩
    have hjob : Job.ofRequest r = .series (Value.distinct entities) first last := by
      unfold Job.ofRequest Request.isSeries
      rw [hshape, hentities, hfirst, hlast]
      rfl
    have hdirect : Call.seriesEntities (.list entities) = .ok (Value.distinct entities) :=
      if_pos hq.areKeys
    simp only [direct, Call.series, Call.ofRequest, Call.plain, hjob, hdirect, hformula, hversion]
    rfl
  | aggregate entities year =>
    obtain ⟨r, hr, hentities, hfirst, hlast, hformula, hversion, hshape⟩ := Request.exists_make
      formula version .aggregate hq.areKeys hq.entities_ne_nil hq.ordered
      (fun _ => Value.same_self year) nofun
    refine ⟨r, hr, ?_⟩
    have hjob : Job.ofRequest r = .figure (.ofYear (Value.distinct entities) year) := by
      unfold Job.ofRequest Request.isSeries
      rw [hshape, hentities, hfirst]
      rfl
    have hplain : (Job.figure (.ofYear entities year)).plain =
        (Job.figure (.ofYear (Value.distinct entities) year)).plain :=
      plain_ofYear hq.entities_ne_nil hq.areKeys hrepeats
    have hitems : Attempt.ofTyped (Value.list entities).items? = .ok entities := rfl
    simp only [direct, Call.aggregate, Call.ofRequest, Call.plain, hjob, hitems, hformula, hversion,
      Except.map, hplain]

namespace Service

/-- Calls that come to the same are answered alike. -/
theorem endings_run_call (s : Service) {c c' : Call} (hc : c.plain = c'.plain)
    (events : List Event) :
    (s.run (.call c :: events)).endings = (s.run (.call c' :: events)).endings := by
  have hturns : [Turn.call c].map Turn.plain = [Turn.call c'].map Turn.plain :=
    congrArg (fun c : Call => [Turn.call c]) hc
  have hrun := essence_run (essence_enqueue (rfl : s.essence = s.essence) hturns) events
  exact (congrArg Service.endings hrun :)

/-- **A request and a direct call agree.**  Whatever the state of the service
    and whatever happens afterwards, a figure, a series or a sum over entities
    that may repeat is answered directly as it is by a request, unless the sum
    is over one entity that is named several times. -/
theorem request_agrees (s : Service) {q : Question} (hq : q.IsProper) (hrepeats : ¬ q.RepeatsOne)
    (caller : String) (formula : FormulaSource) (version : Value) (context : Log.Context)
    (events : List Event) :
    ∃ r, q.request formula version = .ok r ∧
      (s.run (.call { q.direct caller formula version with context := context } :: events)).endings =
        (s.run (.call { Call.ofRequest caller r with context := context } :: events)).endings := by
  obtain ⟨r, hr, hplain⟩ := q.exists_request hq hrepeats caller formula version
  refine ⟨r, hr, s.endings_run_call ?_ events⟩
  exact (congrArg (fun c : Call => ({ c with context := context } : Call)) hplain :)

/-- A formula that is the number 1.5. -/
def oneAndAHalf : FormulaSource := .written (.text "1.5") .amount

/-- One caller asks, and whatever can be done next is done twelve times. -/
def askedFor (c : Call) : List Event := [.call c, .take 0] ++ List.replicate 11 (.take 0)

theorem run_askedFor {c : Call} {f : Compiled} {job : Job}
    (hprepared : small.registry.prepare c = .ok (f, job)) :
    small.run (askedFor c) = (small.begun c f job).run (List.replicate 11 (.take 0)) := by
  rw [askedFor, run_append, run_call_take rfl hprepared]

theorem prepare_oneAndAHalf {c : Call} {job : Job} (hformula : c.formula = oneAndAHalf)
    (hjob : c.job = .ok job) : small.registry.prepare c =
      .ok (numberFormula (.finite false 15 (-1)) (.finite false 15 (-1)), job) := by
  unfold Registry.prepare
  rw [hformula, hjob, oneAndAHalf,
    compile_number (d := .finite false 15 (-1)) (n := .finite false 15 (-1)) (by cbv) (by decide +kernel)]
  rfl

/-- A sum over two entities, one of which is named twice and the other has no
    ledger. -/
theorem request_agrees_repeated :
    let q := Question.aggregate [.text "A", .text "B", .text "A"] (.int 2024)
    let direct := q.direct "a" oneAndAHalf .null
    (q.IsProper ∧ ¬ q.RepeatsOne) ∧
      (small.run (askedFor direct)).endings.map (·.outcome) =
        [.ok (.figure ⟨.value (.finite false 15 (-1)), .amount, []⟩)] ∧
      ∃ r, q.request oneAndAHalf .null = .ok r ∧
        (small.run (askedFor direct)).endings =
          (small.run (askedFor (.ofRequest "a" r))).endings := by
  intro q direct
  have hq : q.IsProper := ⟨by decide, by decide, by decide⟩
  have hrepeats : ¬ q.RepeatsOne := by decide
  refine ⟨⟨hq, hrepeats⟩, ?_, request_agrees small hq hrepeats "a" oneAndAHalf .null {} _⟩
  rw [run_askedFor (prepare_oneAndAHalf rfl rfl)]
  decide +kernel

/-- An entity without a ledger that is named twice: directly its sum has no
    valid part, by a request its figure has no ledger. -/
theorem not_request_agrees :
    let q := Question.aggregate [.text "B", .text "B"] (.int 2024)
    q.IsProper ∧ ∃ r, q.request oneAndAHalf .null = .ok r ∧
      (small.run (askedFor (q.direct "a" oneAndAHalf .null))).endings.map (·.outcome) =
        [.ok (.figure ⟨.invalid .noValidContributions, .amount, []⟩)] ∧
      (small.run (askedFor (.ofRequest "a" r))).endings.map (·.outcome) =
        [.ok (.figure (.missing .amount))] := by
  intro q
  have hq : q.IsProper := ⟨by decide, by decide, by decide⟩
  obtain ⟨r, hr, hentities, hfirst, -, hformula, hversion, hshape⟩ := Request.exists_make
    oneAndAHalf .null .aggregate hq.areKeys hq.entities_ne_nil hq.ordered
    (fun _ => Value.same_self _) nofun
  refine ⟨hq, r, hr, ?_, ?_⟩
  · rw [run_askedFor (prepare_oneAndAHalf rfl rfl)]
    decide +kernel
  · -- the request comes to the same as asking for the one figure
    have hjob : Job.ofRequest r = .figure (.single (.text "B") (.int 2024)) := by
      unfold Job.ofRequest Request.isSeries
      rw [hshape, hentities, hfirst]
      rfl
    have hplain : (Call.ofRequest "a" r).plain =
        (Call.single "a" (.text "B") (.int 2024) oneAndAHalf .null).plain := by
      simp only [Call.ofRequest, Call.single, Call.plain, hjob, hformula, hversion]
    have hendings : (small.run (askedFor (.ofRequest "a" r))).endings = (small.run
        (askedFor (.single "a" (.text "B") (.int 2024) oneAndAHalf .null))).endings :=
      small.endings_run_call hplain _
    rw [hendings, run_askedFor (prepare_oneAndAHalf rfl rfl)]
    decide +kernel

end Service

end KeyFigures
