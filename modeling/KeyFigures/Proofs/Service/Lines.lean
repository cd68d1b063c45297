/-
  KeyFigures/Proofs/Service/Lines.lean
  ====================================
  **What is bound in one line of work stays in it.**

  Every task and every flight belongs to a line of work: the call that it is done
  for, with the number of the request.  `Lines` writes down which, turn by turn:
  what begins in a turn begins for whom the turn is taken.

  A turn is work for one line (`Service.WorksFor`).  The tasks and the
  computations that it adds have the context of that line, the parts of a task
  and the flights that it launches among them, and a call that ends in it gives
  back what its caller had bound.  So whatever the turns of other lines do in
  between, a task is found in the context of its line (`Lines.Kept`), and the
  records of a computation carry it (`Service.contexts_stay_apart`).
-/
import KeyFigures.Proofs.Service.Moves
import KeyFigures.Proofs.Service.Tower

namespace KeyFigures

open Log (Field)

/-! ### Lines of work -/

/-- A call, and the number that its request has once the call is taken up. -/
structure Line where
  request : Nat
  call : Call

/-- What is bound in a line of work: the identifier of its request, and what the
    caller had bound. -/
def Line.context (x : Line) (ids : Nat → String) : Log.Context :=
  (x.call.context.bind [("request_id", .text (ids x.request))]).2

/-- The line of every task and of every flight, by their numbers. -/
structure Lines where
  ofTask : Nat → Option Line := fun _ => none
  ofFlight : Nat → Option Line := fun _ => none

namespace Lines

/-- The line for which a turn is taken.  A call that is taken up is the next
    request. -/
def ofTurn (g : Lines) (s : Service) : Turn → Option Line
  | .call c => some ⟨s.nextRequest, c⟩
  | .begin n | .deliver n _ | .resume n _ | .report n _ _ | .wake n _ => g.ofTask n
  | .takeOff n | .granted n | .fetched n => g.ofFlight n

def ofEvent (g : Lines) (s : Service) : Service.Event → Option Line
  | .take place => (s.ready[place]?).bind (g.ofTurn s)
  | _ => none

/-- Tasks and flights that begin now have the next numbers; they begin for the
    line of the event. -/
def step (g : Lines) (s : Service) (e : Service.Event) : Lines where
  ofTask n := if s.nextTask ≤ n then g.ofEvent s e else g.ofTask n
  ofFlight n := if s.cache.cache.misses ≤ n then g.ofEvent s e else g.ofFlight n

def run (g : Lines) (s : Service) : List Service.Event → Lines
  | [] => g
  | e :: events => (g.step s e).run (s.step e) events

end Lines

/-- A task has the context of its line, and at any moment its end would give the
    caller back what was bound before the call. -/
structure Task.Serves (t : Task) (ids : Nat → String) (x : Line) : Prop where
  context : t.context = x.context ids
  owner : ∀ name saved, t.owner = .caller name saved →
    name = x.call.caller ∧ t.context.restore saved = x.call.context

/-- It is the call of the line that has ended, and its caller has bound what was
    bound before the call. -/
structure Ending.Closes (y : Ending) (x : Line) : Prop where
  caller : y.caller = x.call.caller
  context : y.context = x.call.context

theorem Task.Serves.congr {t u : Task} {ids : Nat → String} {x : Line} (hu : u.Serves ids x)
    (howner : t.owner = u.owner) (hcontext : t.context = u.context) : t.Serves ids x where
  context := hcontext.trans hu.context
  owner := by
    rw [howner, hcontext]
    exact hu.owner

namespace Service

variable {s s' s'' : Service} {l : Option Line} {x : Line} {t : Task}

/-- What the service does for a line of work, or for none: all that is added
    belongs to that line. -/
structure WorksFor (s : Service) (l : Option Line) (s' : Service) : Prop where
  ids : s'.requestId = s.requestId
  surroundings : s'.journal.context = s.journal.context
  next : s.nextTask ≤ s'.nextTask
  tasks : ∀ t ∈ s'.tasks,
    (∃ u ∈ s.tasks, t.number = u.number ∧ t.owner = u.owner ∧ t.context = u.context) ∨
      s.nextTask ≤ t.number ∧ t.number < s'.nextTask ∧ ∃ x ∈ l, t.Serves s.requestId x
  computations : ∀ c ∈ s'.computations,
    c ∈ s.computations ∨ ∃ x ∈ l, c.context = x.context s.requestId
  endings : ∃ ended, s'.endings = s.endings ++ ended ∧ ∀ y ∈ ended, ∃ x ∈ l, y.Closes x

/-- What matters to callers besides the tasks under way. -/
def outside (s : Service) : (Nat → String) × Log.Context × Nat × List Ending :=
  (s.requestId, s.journal.context, s.nextTask, s.endings)

namespace WorksFor

/-- Work that adds nothing is work for any line. -/
theorem of_subset (houtside : s'.outside = s.outside) (htasks : s'.tasks ⊆ s.tasks)
    (hcomputations : s'.computations ⊆ s.computations) : s.WorksFor l s' := by
  simp only [outside, Prod.mk.injEq] at houtside
  obtain ⟨hids, hcontext, hnext, hendings⟩ := houtside
  exact {
    ids := hids
    surroundings := hcontext
    next := Nat.le_of_eq hnext.symm
    tasks := fun t ht => .inl ⟨t, htasks ht, rfl, rfl, rfl⟩
    computations := fun c hc => .inl (hcomputations hc)
    endings := ⟨[], by rw [hendings, List.append_nil], List.forall_mem_nil _⟩ }

theorem refl (s : Service) : s.WorksFor l s :=
  of_subset rfl (List.Subset.refl _) (List.Subset.refl _)

theorem after (h' : s'.WorksFor l s'') (h : s.WorksFor l s') : s.WorksFor l s'' where
  ids := h'.ids.trans h.ids
  surroundings := h'.surroundings.trans h.surroundings
  next := h.next.trans h'.next
  tasks t ht := by
    rcases h'.tasks t ht with ⟨u, hu, hnumber, howner, hcontext⟩ | ⟨hle, hlt, hserves⟩
    · rcases h.tasks u hu with ⟨v, hv, hnumber', howner', hcontext'⟩ | ⟨hle, hlt, x, hx, hserves⟩
      · exact .inl ⟨v, hv, hnumber.trans hnumber', howner.trans howner', hcontext.trans hcontext'⟩
      · exact .inr ⟨hnumber ▸ hle, hnumber ▸ Nat.lt_of_lt_of_le hlt h'.next, x, hx,
          hserves.congr howner hcontext⟩
    · exact .inr ⟨h.next.trans hle, hlt, h.ids ▸ hserves⟩
  computations c hc := by
    rcases h'.computations c hc with hold | hnew
    · exact h.computations c hold
    · exact .inr (h.ids ▸ hnew)
  endings := by
    obtain ⟨first, hfirst, hclosed⟩ := h.endings
    obtain ⟨second, hsecond, hclosed'⟩ := h'.endings
    refine ⟨first ++ second, by rw [hsecond, hfirst, List.append_assoc], fun y hy => ?_⟩
    exact (List.mem_append.mp hy).elim (hclosed y) (hclosed' y)

theorem record {α : Type} (context : Log.Context) (work : Log.Recorded α) :
    s.WorksFor l (s.record context work).2 :=
  of_subset rfl (List.Subset.refl _) (List.Subset.refl _)

/-! ### What tasks do -/

/-- A task that ends restores what its call has bound, if it is the one of a
    caller. -/
theorem conclude (ht : t.Serves s.requestId x) (out : Attempt Response) :
    s.WorksFor (some x) (s.conclude t out) := by
  have hended : s.WorksFor (some x) { s with tasks := s.tasks.filter (·.number != t.number) } :=
    of_subset rfl (List.filter_subset_self _) (List.Subset.refl _)
  unfold Service.conclude
  dsimp only
  split
  · rename_i name saved howner
    obtain ⟨hname, hrestored⟩ := ht.owner name saved howner
    exact { hended with
      endings := ⟨[⟨name, out, t.context.restore saved⟩], rfl, fun y hy =>
        ⟨x, rfl, List.mem_singleton.mp hy ▸ ⟨hname, hrestored⟩⟩⟩ }
  · split <;> exact { hended with }

/-- The parts of a task are done for the line of the task. -/
theorem spawn (ht : t.Serves s.requestId x) : s.WorksFor (some x) (s.spawn t) where
  ids := rfl
  surroundings := rfl
  next := Nat.le_add_right _ _
  tasks u hu := by
    rcases List.mem_append.mp hu with hold | hnew
    · exact .inl ⟨u, hold, rfl, rfl, rfl⟩
    · obtain ⟨⟨f, place⟩, hmem, rfl⟩ := List.mem_map.mp hnew
      have hplace := (List.mem_zipIdx hmem).2.1
      refine .inr ⟨Nat.le_add_right _ _, ?_, x, rfl, ht.context, fun _ _ howner => nomatch howner⟩
      show s.nextTask + place < s.nextTask + _
      rw [List.length_map, List.length_zipIdx]
      omega
  computations c hc := .inl hc
  endings := ⟨[], (List.append_nil _).symm, List.forall_mem_nil _⟩

/-- A flight that is launched copies the context of the task. -/
theorem request (ht : t.Serves s.requestId x) (entity year : Value) (key : CacheKey) :
    s.WorksFor (some x) (s.request t entity year key) := by
  unfold Service.request
  dsimp only
  rcases s.cache.request t.number key with ⟨cache, lookup⟩
  have hnoted : s.WorksFor (some x)
      ({ s with cache := cache }.record t.context (lookup.note key)).2 :=
    of_subset rfl (List.Subset.refl _) (List.Subset.refl _)
  cases lookup with
  | hit r =>
    have hconcluded := conclude (s := ({ s with cache := cache }.record t.context
      ((Cache.Lookup.hit r).note key)).2) ht (.ok (.figure r))
    exact hconcluded.after hnoted
  | joined flight => exact hnoted
  | started flight =>
    refine { hnoted with computations := fun c hc => ?_ }
    rcases List.mem_append.mp hc with hold | hnew
    · exact .inl hold
    · exact .inr ⟨x, rfl, List.mem_singleton.mp hnew ▸ ht.context⟩

theorem begin (ht : t.Serves s.requestId x) : s.WorksFor (some x) (s.begin t) := by
  unfold Service.begin
  split
  · exact conclude ht _
  · split
    · unfold Service.lookUp
      split
      · exact conclude ht _
      · split
        · exact conclude ht _
        · exact request ht _ _ _
    · exact spawn ht

theorem serves_taskOf (s : Service) (c : Call) (f : Compiled) (job : Job) :
    (s.taskOf c f job).Serves s.requestId ⟨s.nextRequest, c⟩ where
  context := rfl
  owner := by
    rintro name saved ⟨⟩
    have hbind : c.context.bind [("request_id", .text (s.requestId s.nextRequest))] =
        (.ok [(.requestId, c.context.requestId)], (s.taskOf c f job).context) := rfl
    exact ⟨rfl, Log.Context.restore_bind hbind⟩

/-- A call is taken up for the line of its own. -/
theorem takeUp (c : Call) : s.WorksFor (some ⟨s.nextRequest, c⟩) (s.takeUp c) := by
  rw [takeUp_eq]
  cases s.registry.prepare c with
  | error f =>
    exact { refl s with
      endings := ⟨[⟨c.caller, .error f, c.context⟩], rfl, fun y hy =>
        ⟨_, rfl, List.mem_singleton.mp hy ▸ ⟨rfl, rfl⟩⟩⟩ }
  | ok prepared =>
    obtain ⟨f, job⟩ := prepared
    have hserves := serves_taskOf s c f job
    have henrolled : s.WorksFor (some ⟨s.nextRequest, c⟩) (s.enrol c f job) := {
      ids := rfl
      surroundings := rfl
      next := Nat.le_succ _
      tasks := fun t ht => by
        rcases List.mem_append.mp ht with hold | hnew
        · exact .inl ⟨t, hold, rfl, rfl, rfl⟩
        · obtain rfl := List.mem_singleton.mp hnew
          exact .inr ⟨Nat.le_refl _, Nat.lt_succ_self _, _, rfl, hserves⟩
      computations := fun _ hd => .inl hd
      endings := ⟨[], (List.append_nil _).symm, List.forall_mem_nil _⟩ }
    exact (begin (s := s.enrol c f job) hserves).after henrolled

theorem collect (ht : t ∈ s.tasks) (place : Nat) (out : Attempt Result) :
    s.WorksFor l (s.collect t place out) := by
  cases out with
  | error f => exact of_subset rfl (List.Subset.refl _) (List.Subset.refl _)
  | ok r =>
    have hupdated : s.WorksFor l { s with
        tasks := s.tasks.map fun u =>
          if u.number = t.number then { t with results := t.results ++ [(place, r)] } else u } := {
      refl s with
      tasks := fun u hu => by
        obtain ⟨v, hv, rfl⟩ := List.mem_map.mp hu
        split
        · exact .inl ⟨t, ht, rfl, rfl, rfl⟩
        · exact .inl ⟨v, hv, rfl, rfl, rfl⟩ }
    unfold Service.collect
    dsimp only
    split <;> exact { hupdated with }

theorem abandon (dropped : List Task) : s.WorksFor l (s.abandon dropped) :=
  of_subset rfl (List.filter_subset_self _) (List.Subset.refl _)

theorem goOn (ht : t.Serves s.requestId x) (failure : Option Failure) :
    s.WorksFor (some x) (s.goOn t failure) := by
  cases failure with
  | some f => exact (conclude (s := s.abandon _) ht _).after (abandon _)
  | none => exact (conclude (s := (s.record t.context t.respond).2) ht _).after (record _ _)

/-! ### What flights do -/

theorem land (c : Computation) (out : Attempt Result) : s.WorksFor l (s.land c out) := by
  have hcomputations : (s.land c out).computations ⊆ s.computations := by
    rw [computations_land]
    exact List.filter_subset_self _
  have hrest : (s.land c out).outside = s.outside ∧ (s.land c out).tasks = s.tasks := by
    unfold Service.land
    dsimp only
    cases s.cache.flight? c.flight <;> exact ⟨rfl, rfl⟩
  exact of_subset hrest.1 (fun t ht => hrest.2 ▸ ht) hcomputations

theorem compute (c : Computation) : s.WorksFor l (s.compute c) := by
  have hreleased : s.WorksFor l ({ s with fetches := s.fetches + 1 }.record c.bound
      (s.source.fetch c.entity c.year c.version)).2.releaseSlot :=
    of_subset rfl (List.Subset.refl _) (List.Subset.refl _)
  unfold Service.compute
  dsimp only
  split
  · exact (land c _).after hreleased
  · exact ((land c _).after (record c.bound _)).after hreleased

theorem fetch (c : Computation) : s.WorksFor l (s.fetch c) := by
  unfold Service.fetch
  split
  · exact of_subset rfl (List.Subset.refl _) (List.Subset.refl _)
  · exact compute c

theorem takeOff (c : Computation) : s.WorksFor l (s.takeOff c) := by
  have hslots : s.WorksFor l { s with slots := (s.slots.acquire c.flight).1 } :=
    of_subset rfl (List.Subset.refl _) (List.Subset.refl _)
  unfold Service.takeOff
  dsimp only
  split
  · exact (fetch c).after hslots
  · exact hslots

theorem useGranted (c : Computation) : s.WorksFor l (s.useGranted c) := by
  have hslots : s.WorksFor l ({ s with slots := (s.slots.proceed c.flight).1 }.enqueue
      ((s.slots.proceed c.flight).2.map Turn.granted).toList) :=
    of_subset rfl (List.Subset.refl _) (List.Subset.refl _)
  exact (fetch c).after hslots

end WorksFor

end Service

/-! ### Keeping track -/

namespace Lines

variable {g : Lines} {s : Service}

/-- Every task and every computation is written down with its line, and has the
    context of that line. -/
structure Kept (g : Lines) (s : Service) : Prop where
  tasks : ∀ t ∈ s.tasks, t.number < s.nextTask ∧
    ∃ x, g.ofTask t.number = some x ∧ t.Serves s.requestId x
  computations : ∀ c ∈ s.computations,
    CacheKey.ofValues c.entity c.year c.version (.text c.formula.key) = .ok c.key ∧
      ∃ x, g.ofFlight c.flight = some x ∧ c.context = x.context s.requestId

/-- A turn is work for the line of its task or flight. -/
theorem Kept.perform (h : g.Kept s) (turn : Turn) :
    s.WorksFor (g.ofTurn s turn) (s.perform turn) := by
  have htask : ∀ (n : Nat) (next : Task → Service),
      (∀ t ∈ s.tasks, ∀ x, t.Serves s.requestId x → s.WorksFor (some x) (next t)) →
        s.WorksFor (g.ofTask n) (s.withTask n next) := by
    intro n next hnext
    refine Service.withTask_of (fun _ => .refl s) ?_
    rintro t ht rfl
    obtain ⟨-, x, hx, hserves⟩ := h.tasks t ht
    exact hx ▸ hnext t ht x hserves
  have hcomputation : ∀ (n : Nat) (next : Computation → Service),
      (∀ c, s.WorksFor (g.ofFlight n) (next c)) →
        s.WorksFor (g.ofFlight n) (s.withComputation n next) := fun _ _ hnext =>
    Service.withComputation_of (fun _ => .refl s) fun c _ _ => hnext c
  cases turn with
  | call c => exact .takeUp c
  | begin n => exact htask n _ fun t _ x ht => .begin ht
  | takeOff n => exact hcomputation n _ .takeOff
  | granted n => exact hcomputation n _ .useGranted
  | fetched n => exact hcomputation n _ .compute
  | deliver n out =>
    exact htask n _ fun t _ x _ => .of_subset rfl (List.Subset.refl _) (List.Subset.refl _)
  | resume n out => exact htask n _ fun t _ x ht => .conclude ht _
  | report n place out => exact htask n _ fun t ht x _ => .collect ht place out
  | wake n failure => exact htask n _ fun t _ x ht => .goOn ht failure

/-- Whatever happens is work for the line of a turn, or adds nothing. -/
theorem Kept.works (h : g.Kept s) (e : Service.Event) :
    s.WorksFor (g.ofEvent s e) (s.step e) := by
  have hsame : ∀ {s' : Service}, s'.outside = s.outside → s'.tasks = s.tasks →
      s'.computations = s.computations → s.WorksFor none s' := fun houtside htasks hcomputations =>
    .of_subset houtside (fun t ht => htasks ▸ ht) fun c hc => hcomputations ▸ hc
  cases e with
  | take place =>
    simp only [Service.step, Service.take, ofEvent]
    cases s.ready[place]? with
    | none => exact .refl s
    | some turn =>
      have herased : g.Kept { s with ready := s.ready.eraseIdx place } := ⟨h.tasks, h.computations⟩
      have hperformed := herased.perform turn
      have hline : g.ofTurn { s with ready := s.ready.eraseIdx place } turn = g.ofTurn s turn := by
        cases turn <;> rfl
      rw [hline] at hperformed
      exact { hperformed with }
  | cancel caller =>
    have habandoned := Service.WorksFor.abandon (s := s) (l := none)
      (s.tasks.filter (·.isOf caller) ++
        (s.tasks.filter (·.isOf caller)).flatMap fun t => s.within t.number)
    exact { habandoned with }
  | letGo entity year version =>
    rcases s.letGo_cases entity year version with heq | ⟨flight, -, heq⟩ <;> rw [heq]
    · exact .refl s
    · exact hsame rfl rfl rfl
  | addLedger added =>
    obtain ⟨source, heq⟩ := s.exists_addLedger_eq added
    rw [heq]
    exact hsame rfl rfl rfl
  | save d =>
    obtain ⟨registry, journal, heq, hcontext⟩ := s.exists_save_eq d
    rw [heq]
    refine hsame ?_ rfl rfl
    simp only [Service.outside, hcontext]
  | call | hold | evict | invalidate | clear | clock => exact hsame rfl rfl rfl

/-- A flight belongs to the line for which the turn is taken that launches it. -/
theorem ofFlight_launched (g : Lines) {e : Service.Event} {c : Computation}
    (hnew : c ∈ (s.step e).computations) (hold : c ∉ s.computations) :
    (g.step s e).ofFlight c.flight = g.ofEvent s e :=
  if_pos (Nat.le_of_eq ((Service.launches_of_mem_step hnew).resolve_left hold).number.symm)

/-- What happens is written down: whoever is under way has the context of the
    line that was written down at the beginning. -/
theorem Kept.step {limit : Nat} (h : g.Kept s) (horderly : s.tower.Orderly limit [])
    (e : Service.Event) : (g.step s e).Kept (s.step e) := by
  have hworks := h.works e
  have hids := hworks.ids
  refine ⟨fun t ht => ?_, fun c hc => ?_⟩
  · rw [hids]
    rcases hworks.tasks t ht with ⟨u, hu, hnumber, howner, hcontext⟩ | ⟨hle, hlt, x, hx, hserves⟩
    · obtain ⟨hlt, x, hx, hserves⟩ := h.tasks u hu
      refine ⟨hnumber ▸ Nat.lt_of_lt_of_le hlt hworks.next, x, ?_, hserves.congr howner hcontext⟩
      rw [hnumber, ← hx]
      exact if_neg (Nat.not_le.mpr hlt)
    · exact ⟨hlt, x, (if_pos hle).trans hx, hserves⟩
  · rw [hids]
    by_cases hold : c ∈ s.computations
    · obtain ⟨hkey, x, hx, hcontext⟩ := h.computations c hold
      have hlt : c.flight < s.cache.cache.misses :=
        horderly.fresh c.flight (List.mem_map_of_mem hold)
      exact ⟨hkey, x, (if_neg (Nat.not_le.mpr hlt)).trans hx, hcontext⟩
    · have hlaunches := (Service.launches_of_mem_step hc).resolve_left hold
      obtain ⟨x, hx, hcontext⟩ := (hworks.computations c hc).resolve_left hold
      exact ⟨hlaunches.key_eq, x, (ofFlight_launched g hc hold).trans hx, hcontext⟩

theorem Kept.run {limit : Nat} (h : g.Kept s) (horderly : s.tower.Orderly limit [])
    (events : List Service.Event) : (g.run s events).Kept (s.run events) ∧
      (s.run events).requestId = s.requestId ∧
      (s.run events).journal.context = s.journal.context := by
  induction events generalizing g s with
  | nil => exact ⟨h, rfl, rfl⟩
  | cons e events ih =>
    obtain ⟨hkept, hids, hcontext⟩ := ih (h.step horderly e) (Service.orderly_step horderly e)
    have hworks := h.works e
    exact ⟨hkept, hids.trans hworks.ids, hcontext.trans hworks.surroundings⟩

end Lines

/-! ### What a computation records -/

theorem Computation.bound_eq (c : Computation) : c.bound = c.context.set
    [(.entityId, c.entity), (.fiscalYear, c.year), (.formulaKey, .text c.formula.key)] :=
  c.context.bind_names
    [(.entityId, c.entity), (.fiscalYear, c.year), (.formulaKey, .text c.formula.key)]

/-- What a computation is about is bound for its work, and the identifier of the
    request stays bound. -/
theorem Computation.get_bound (c : Computation) :
    c.bound.get .requestId = c.context.get .requestId ∧
    (c.entity.isNull = false → c.bound.get .entityId = some c.entity.display) ∧
    (c.year.isNull = false → c.bound.get .fiscalYear = some c.year.display) ∧
    c.bound.get .formulaKey = some (Value.text c.formula.key).display := by
  have hformula : (Value.text c.formula.key).isNull = false := rfl
  rw [c.bound_eq]
  cases hentity : c.entity.isNull <;> cases hyear : c.year.isNull <;>
    simp [Log.Context.set, Log.Context.put, Log.Context.get, hentity, hyear, hformula]

namespace Service

variable {s : Service}

/-- What the work of a computation adds to the records. -/
def told (s : Service) (c : Computation) : List Log.Record :=
  (c.work s.source).adds { s.journal with context := c.bound }

theorem written_record {α : Type} {work : Log.Recorded α} (hwork : work.Composed)
    (context : Log.Context) :
    (s.record context work).2.journal.written =
      s.journal.written ++ work.adds { s.journal with context := context } :=
  (hwork.written_play { s.journal with context := context }).1

theorem written_land (c : Computation) (out : Attempt Result) :
    ∃ notes, (s.land c out).journal.written = s.journal.written ++ notes := by
  unfold Service.land
  dsimp only
  cases s.cache.flight? c.flight with
  | none => exact ⟨[], (List.append_nil _).symm⟩
  | some f => exact ⟨_, written_record (Cache.Landing.composed_note _ _) c.context⟩

/-- A computation adds what its work tells, and then what there is to say about
    the end of its flight. -/
theorem written_compute (c : Computation) :
    ∃ notes, (s.compute c).journal.written = s.journal.written ++ s.told c ++ notes := by
  obtain ⟨s', -, -, hwritten, heq⟩ := compute_eq (s := s) c
  obtain ⟨notes, hnotes⟩ := written_land (s := s') c
    ((c.work s.source).play { s.journal with context := c.bound }).1
  refine ⟨notes, ?_⟩
  rw [heq, hnotes, hwritten, ((c.composed_work s.source).written_play _).1]
  rfl

/-- While details are recorded, a computation that comes to a result tells so. -/
theorem exists_mem_told (hlevel : s.journal.setup.isEnabled Log.debug = true)
    (hconfigured : s.journal.setup.configured.isSome = true) {c : Computation} {r : Result}
    (h : ((c.work s.source).play { s.journal with context := c.bound }).1 = .ok r) :
    ∃ fields, Log.record c.bound (.int Log.debug) "services.calculation" "evaluation_computed"
      fields none ∈ s.told c := by
  have hfetch := s.source.composed_fetch c.entity c.year c.version
  obtain ⟨ledger, j₁, -, hevaluated, hsetup₁, hcontext₁, hadds₁⟩ :=
    hfetch.exists_adds_bind (composed_evaluation c) h
  obtain ⟨r', j₂, -, hnoted, hsetup₂, hcontext₂, hadds₂⟩ :=
    (composed_evaluate _ _ _).exists_adds_bind composed_noteComputed hevaluated
  obtain ⟨⟨⟩, j₃, hevent, -, -, -, hadds₃⟩ :=
    (Log.Recorded.Composed.event _ _ _ _).exists_adds_bind (fun _ => .pure r') hnoted
  have hsetup : j₂.setup = s.journal.setup := hsetup₂.trans hsetup₁
  obtain ⟨fields, hmem⟩ := Log.Recorded.exists_mem_adds_event (hsetup ▸ hlevel)
    (hsetup ▸ hconfigured) hevent
  rw [hcontext₂.trans hcontext₁] at hmem
  refine ⟨fields, ?_⟩
  have htold : s.told c = _ := hadds₁
  rw [htold, evaluation_eq, hadds₂]
  refine List.mem_append_right _ (List.mem_append_right _ ?_)
  rw [noteComputed, hadds₃]
  exact List.mem_append_left _ hmem

/-- In the turn of a flight that computes the service does so, with the source
    and the journal that it has. -/
theorem perform_of_computes? {turn : Turn} {c : Computation} (h : s.computes? turn = some c) :
    turn.flight? = some c.flight ∧
      ∃ s' : Service, s'.source = s.source ∧ s'.journal = s.journal ∧
        s.perform turn = s'.compute c := by
  have hnow : ∀ {u : Service} {d : Computation}, u.hold = s.hold → s.fetchesNow? d = some c →
      d = c ∧ u.fetch d = u.compute c := by
    intro u d hhold hd
    unfold fetchesNow? at hd
    split at hd
    · cases hd
    · rename_i hfree
      obtain rfl := Option.some.inj hd
      exact ⟨rfl, if_neg (hhold ▸ hfree)⟩
  cases turn with
  | takeOff n =>
    obtain ⟨d, hd, hc⟩ := Option.bind_eq_some_iff.mp h
    split at hc
    · rename_i hgranted
      obtain ⟨rfl, hfetch⟩ := hnow (u := { s with slots := (s.slots.acquire d.flight).1 }) rfl hc
      refine ⟨congrArg some (flight_of_computation? hd).symm,
        { s with slots := (s.slots.acquire d.flight).1 }, rfl, rfl, ?_⟩
      simp only [perform, withComputation, hd]
      exact (if_pos hgranted).trans hfetch
    · cases hc
  | granted n =>
    obtain ⟨d, hd, hc⟩ := Option.bind_eq_some_iff.mp h
    obtain ⟨rfl, hfetch⟩ := hnow (u := { s with slots := (s.slots.proceed d.flight).1 }.enqueue
      ((s.slots.proceed d.flight).2.map Turn.granted).toList) rfl hc
    refine ⟨congrArg some (flight_of_computation? hd).symm,
      { s with slots := (s.slots.proceed d.flight).1 }.enqueue
        ((s.slots.proceed d.flight).2.map Turn.granted).toList, rfl, rfl, ?_⟩
    simp only [perform, withComputation, hd]
    exact hfetch
  | fetched n =>
    have hd : s.computation? n = some c := h
    refine ⟨congrArg some (flight_of_computation? hd).symm, s, rfl, rfl, ?_⟩
    simp only [perform, withComputation, hd]
  | _ => cases h

/-- When something happens that a flight computes in, that adds what the work of
    its computation tells. -/
theorem written_step {e : Event} {c : Computation} (h : s.computesIn? e = some c) :
    ∃ notes, (s.step e).journal.written = s.journal.written ++ s.told c ++ notes := by
  cases e with
  | take place =>
    obtain ⟨turn, hturn, hc⟩ := Option.bind_eq_some_iff.mp h
    obtain ⟨-, s', hsource, hjournal, hperform⟩ :=
      perform_of_computes? (s := { s with ready := s.ready.eraseIdx place }) hc
    obtain ⟨notes, hnotes⟩ := written_compute (s := s') c
    refine ⟨notes, ?_⟩
    simp only [step, take, hturn]
    rw [hperform, hnotes]
    unfold told
    rw [hsource, hjournal]
  | _ => cases h

/-- The records of a computation show what it is about, and whose request it
    was that launched its flight. -/
theorem told_shows {g : Lines} (h : g.Kept s) {c : Computation} (hc : c ∈ s.computations) :
    ∃ x, g.ofFlight c.flight = some x ∧ ∀ r ∈ s.told c,
      Field.requestId.IsShown (.text (s.requestId x.request)) r ∧
      (c.entity.isNull = false → Field.entityId.IsShown c.entity r) ∧
      (c.year.isNull = false → Field.fiscalYear.IsShown c.year r) ∧
      Field.formulaKey.IsShown (.text c.formula.key) r := by
  obtain ⟨-, x, hx, hcontext⟩ := h.computations c hc
  obtain ⟨hrequest, hentity, hyear, hformula⟩ := c.get_bound
  refine ⟨x, hx, fun r hr => ?_⟩
  have hmarked : c.bound.Marks r := ((c.composed_work s.source).written_play _).2 r hr
  rw [hcontext] at hrequest
  exact ⟨hmarked.isShown hrequest, fun hnull => hmarked.isShown (hentity hnull),
    fun hnull => hmarked.isShown (hyear hnull), hmarked.isShown hformula⟩

/-- **What is bound never leaks from one line of work into another.**  Whatever
    happens to a service, every record that the work of a computation adds shows
    the entity, the year and the formula of its key, and the identifier of the
    request that launched its flight.  A call that ends, whether with an answer
    or with a failure, leaves bound what was bound before it, and so would one
    that is given up; what is bound around the service stays as it is. -/
theorem contexts_stay_apart (registry : Registry) (source : LedgerSource) (settings : Settings)
    (given : Option (SharedCache Nat)) (now : Except TimeFault Moment) (requestId : Nat → String)
    (j : Log.Journal) (events : List Event) (e : Event) :
    let first := { start registry source settings given now requestId with journal := j }
    let s := first.run events
    let lines := Lines.run {} first events
    (∀ c, s.computesIn? e = some c →
      CacheKey.ofValues c.entity c.year c.version (.text c.formula.key) = .ok c.key ∧
      (∃ notes, (s.step e).journal.written = s.journal.written ++ s.told c ++ notes) ∧
      ∃ x, lines.ofFlight c.flight = some x ∧ ∀ r ∈ s.told c,
        Field.requestId.IsShown (.text (requestId x.request)) r ∧
        (c.entity.isNull = false → Field.entityId.IsShown c.entity r) ∧
        (c.year.isNull = false → Field.fiscalYear.IsShown c.year r) ∧
        Field.formulaKey.IsShown (.text c.formula.key) r) ∧
    (∀ c ∈ (s.step e).computations, c ∉ s.computations →
      (lines.step s e).ofFlight c.flight = lines.ofEvent s e) ∧
    (∃ ended, (s.step e).endings = s.endings ++ ended ∧
      ∀ y ∈ ended, ∃ x, lines.ofEvent s e = some x ∧
        y.caller = x.call.caller ∧ y.context = x.call.context) ∧
    (∀ t ∈ s.tasks, ∀ name saved, t.owner = .caller name saved →
      ∃ x, lines.ofTask t.number = some x ∧
        name = x.call.caller ∧ t.context.restore saved = x.call.context) ∧
    (s.step e).journal.context = j.context := by
  intro first s lines
  have hfirst : Lines.Kept {} first := ⟨List.forall_mem_nil _, List.forall_mem_nil _⟩
  have horderly : first.tower.Orderly settings.concurrencyLimit [] :=
    orderly_start registry source settings given now requestId
  obtain ⟨hkept, hids, hcontext⟩ := hfirst.run horderly events
  have hworks := hkept.works e
  refine ⟨fun c hc => ?_, fun c => Lines.ofFlight_launched lines, ?_,
    fun t ht name saved howner => ?_, hworks.surroundings.trans hcontext⟩
  · have hmem := mem_of_computesIn? hc
    refine ⟨(hkept.computations c hmem).1, written_step hc, ?_⟩
    obtain ⟨x, hx, hshown⟩ := told_shows hkept hmem
    rw [hids] at hshown
    exact ⟨x, hx, hshown⟩
  · obtain ⟨ended, hended, hclosed⟩ := hworks.endings
    refine ⟨ended, hended, fun y hy => ?_⟩
    obtain ⟨x, hx, hclosed⟩ := hclosed y hy
    exact ⟨x, hx, hclosed.caller, hclosed.context⟩
  · obtain ⟨-, x, hx, hserves⟩ := hkept.tasks t ht
    exact ⟨x, hx, hserves.owner name saved howner⟩

end Service

end KeyFigures
