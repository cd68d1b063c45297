/-
  KeyFigures/Proofs/Service/Calls.lean
  ====================================
  **Each call is taken up at most once.**

  The work of a service makes no calls and leaves its source and its registry
  as they are (`Keeps.perform`), and the turn that takes up a call uses it up.
  So the calls that are ready were all made from outside, and where every
  caller makes one call it is taken up at one moment only (`TakesUp.unique`).

  Two things are said here once for all that is shown of turns and of runs: what
  is done with the task or the flight of a number is nothing if there is none
  (`withTask_of`, `withComputation_of`), and what saving, adding a ledger and
  letting a fetch go on change (`exists_save_eq`, `exists_addLedger_eq`,
  `letGo_cases`).
-/
import KeyFigures.Service.Run
import Mathlib

namespace KeyFigures

def Turn.call? : Turn → Option Call
  | .call c => some c
  | _ => none

namespace Service

open scoped List

variable {s : Service}

/-! ### The task or the flight of a turn -/

theorem mem_of_task? {n : Nat} {t : Task} (ht : s.task? n = some t) :
    t ∈ s.tasks ∧ t.number = n := by
  have hnumber := List.find?_some ht
  exact ⟨List.mem_of_find?_eq_some ht, by simpa using hnumber⟩

theorem mem_of_computation? {n : Nat} {c : Computation} (hc : s.computation? n = some c) :
    c ∈ s.computations :=
  List.mem_of_find?_eq_some hc

theorem flight_of_computation? {n : Nat} {c : Computation} (hc : s.computation? n = some c) :
    c.flight = n := by simpa using List.find?_some hc

/-- What is done with the task of a number is nothing if there is none. -/
theorem withTask_of {P : Service → Prop} {n : Nat} {next : Task → Service}
    (hgone : (∀ t ∈ s.tasks, t.number ≠ n) → P s)
    (hnext : ∀ t ∈ s.tasks, t.number = n → P (next t)) : P (s.withTask n next) := by
  unfold withTask
  cases ht : s.task? n with
  | none => exact hgone fun t hmem => by simpa using List.find?_eq_none.mp ht t hmem
  | some t => exact hnext t (mem_of_task? ht).1 (mem_of_task? ht).2

/-- What is done with the computation of a flight is nothing if there is none. -/
theorem withComputation_of {P : Service → Prop} {n : Nat} {next : Computation → Service}
    (hgone : (∀ c ∈ s.computations, c.flight ≠ n) → P s)
    (hnext : ∀ c ∈ s.computations, c.flight = n → P (next c)) : P (s.withComputation n next) := by
  unfold withComputation
  cases hc : s.computation? n with
  | none => exact hgone fun c hmem => by simpa using List.find?_eq_none.mp hc c hmem
  | some c => exact hnext c (mem_of_computation? hc) (flight_of_computation? hc)

/-! ### What work keeps -/

/-- The calls that are ready to be taken up. -/
def calls (s : Service) : List Call := s.ready.filterMap Turn.call?

/-- Work of the service makes no calls, and touches neither the source nor the
    registry. -/
structure Keeps (s s' : Service) : Prop where
  calls : s'.calls = s.calls
  source : s'.source = s.source
  registry : s'.registry = s.registry

namespace Keeps

theorem after {s' s'' : Service} (h' : s'.Keeps s'') (h : s.Keeps s') : s.Keeps s'' :=
  ⟨h'.calls.trans h.calls, h'.source.trans h.source, h'.registry.trans h.registry⟩

theorem enqueue {turns : List Turn} (h : ∀ turn ∈ turns, turn.call? = none) :
    s.Keeps (s.enqueue turns) := by
  refine ⟨?_, rfl, rfl⟩
  show (s.ready ++ turns).filterMap Turn.call? = s.calls
  rw [List.filterMap_append, List.filterMap_eq_nil_iff.mpr h, List.append_nil]
  rfl

theorem record {α : Type} (context : Log.Context) (work : Log.Recorded α) :
    s.Keeps (s.record context work).2 :=
  ⟨rfl, rfl, rfl⟩

theorem conclude (t : Task) (x : Attempt Response) : s.Keeps (s.conclude t x) := by
  unfold Service.conclude
  dsimp only
  split
  · exact ⟨rfl, rfl, rfl⟩
  · split
    · refine Keeps.after (enqueue ?_) ⟨rfl, rfl, rfl⟩
      simp [Turn.call?]
    · exact ⟨rfl, rfl, rfl⟩
    · refine Keeps.after (enqueue ?_) ⟨rfl, rfl, rfl⟩
      simp [Turn.call?]

theorem spawn (t : Task) : s.Keeps (s.spawn t) := by
  refine ⟨?_, rfl, rfl⟩
  unfold Service.spawn Service.calls
  simp [List.filterMap_append, List.filterMap_map, Function.comp_def, Turn.call?]

theorem request (t : Task) (entity year : Value) (key : CacheKey) :
    s.Keeps (s.request t entity year key) := by
  unfold Service.request
  dsimp only
  split
  · exact (conclude t _).after ⟨rfl, rfl, rfl⟩
  · exact ⟨rfl, rfl, rfl⟩
  · refine ⟨?_, rfl, rfl⟩
    unfold Service.calls
    rw [List.filterMap_append]
    exact List.append_nil _

theorem lookUp (t : Task) (entity year : Value) : s.Keeps (s.lookUp t entity year) := by
  unfold Service.lookUp
  split
  · exact conclude t _
  · split
    · exact conclude t _
    · exact request t entity year _

theorem begin (t : Task) : s.Keeps (s.begin t) := by
  unfold Service.begin
  split
  · exact conclude t _
  · split
    · exact lookUp t _ _
    · exact spawn t

theorem takeUp (c : Call) : s.Keeps (s.takeUp c) := by
  unfold Service.takeUp
  dsimp only
  split
  · exact ⟨rfl, rfl, rfl⟩
  · split
    · exact ⟨rfl, rfl, rfl⟩
    · exact (begin _).after ⟨rfl, rfl, rfl⟩

theorem collect (t : Task) (place : Nat) (x : Attempt Result) : s.Keeps (s.collect t place x) := by
  unfold Service.collect
  split
  · dsimp only
    split
    · refine Keeps.after (enqueue ?_) ⟨rfl, rfl, rfl⟩
      simp [Turn.call?]
    · exact ⟨rfl, rfl, rfl⟩
  · refine enqueue ?_
    simp [Turn.call?]

theorem goOn (t : Task) (failure : Option Failure) : s.Keeps (s.goOn t failure) := by
  unfold Service.goOn
  split
  · exact (conclude t _).after ⟨rfl, rfl, rfl⟩
  · exact (conclude t _).after ⟨rfl, rfl, rfl⟩

theorem enqueueGranted (next : Option Nat) :
    s.Keeps (s.enqueue (next.map Turn.granted).toList) :=
  enqueue (by cases next <;> simp [Turn.call?])

theorem land (c : Computation) (x : Attempt Result) : s.Keeps (s.land c x) := by
  unfold Service.land
  dsimp only
  split
  · exact ⟨rfl, rfl, rfl⟩
  · refine Keeps.after (enqueue ?_) ⟨rfl, rfl, rfl⟩
    simp [Turn.call?]

theorem compute (c : Computation) : s.Keeps (s.compute c) := by
  have hreleased : s.Keeps ({ s with fetches := s.fetches + 1 }.record c.bound
      (s.source.fetch c.entity c.year c.version)).2.releaseSlot :=
    (enqueueGranted _).after ⟨rfl, rfl, rfl⟩
  unfold Service.compute
  dsimp only
  split
  · exact (land c _).after hreleased
  · exact ((land c _).after (record c.bound _)).after hreleased

theorem fetch (c : Computation) : s.Keeps (s.fetch c) := by
  unfold Service.fetch
  split
  · exact ⟨rfl, rfl, rfl⟩
  · exact compute c

theorem takeOff (c : Computation) : s.Keeps (s.takeOff c) := by
  unfold Service.takeOff
  dsimp only
  split
  · exact (fetch c).after ⟨rfl, rfl, rfl⟩
  · exact ⟨rfl, rfl, rfl⟩

theorem useGranted (c : Computation) : s.Keeps (s.useGranted c) :=
  (fetch c).after ((enqueueGranted _).after ⟨rfl, rfl, rfl⟩)

/-- No turn makes a call ready or changes the source or the registry. -/
theorem perform (turn : Turn) : s.Keeps (s.perform turn) := by
  have hsame : s.Keeps s := ⟨rfl, rfl, rfl⟩
  have htask : ∀ (n : Nat) (next : Task → Service), (∀ t, s.Keeps (next t)) →
      s.Keeps (s.withTask n next) := fun _ _ hnext =>
    withTask_of (fun _ => hsame) fun t _ _ => hnext t
  have hcomputation : ∀ (n : Nat) (next : Computation → Service), (∀ c, s.Keeps (next c)) →
      s.Keeps (s.withComputation n next) := fun _ _ hnext =>
    withComputation_of (fun _ => hsame) fun c _ _ => hnext c
  cases turn with
  | call c => exact takeUp c
  | begin n => exact htask n _ begin
  | takeOff n => exact hcomputation n _ takeOff
  | granted n => exact hcomputation n _ useGranted
  | fetched n => exact hcomputation n _ compute
  | deliver n x => exact htask n _ fun t => enqueue (by simp [Turn.call?])
  | resume n x => exact htask n _ fun t => conclude t _
  | report n place x => exact htask n _ fun t => collect t place x
  | wake n failure => exact htask n _ fun t => goOn t failure

end Keeps

/-! ### Runs -/

def Event.call? : Event → Option Call
  | .call c => some c
  | _ => none

/-- The calls that are made in a run. -/
def made (events : List Event) : List Call := events.filterMap Event.call?

theorem made_append (before after : List Event) :
    made (before ++ after) = made before ++ made after := List.filterMap_append

/-- Letting a fetch go on makes the turn of its flight ready, if one is waited
    for. -/
theorem letGo_cases (s : Service) (entity year version : Value) :
    s.step (.letGo entity year version) = s ∨
      ∃ flight ∈ s.fetching, s.step (.letGo entity year version) = s.letFlightGo flight := by
  unfold step letGo
  dsimp only
  split
  · rename_i flight hfind
    exact .inr ⟨flight, List.mem_of_find?_eq_some hfind, rfl⟩
  · exact .inl rfl

/-- Adding a ledger changes the source only. -/
theorem exists_addLedger_eq (s : Service) (l : Ledger) :
    ∃ source, s.step (.addLedger l) = { s with source := source } := by
  show ∃ source, (s.addLedger l).toOption.getD s = { s with source := source }
  unfold addLedger
  cases s.source.add l with
  | error f => exact ⟨s.source, rfl⟩
  | ok source => exact ⟨source, rfl⟩

/-- Saving changes the registry and the records only. -/
theorem exists_save_eq (s : Service) (d : Definition) : ∃ registry journal,
    s.step (.save d) = { s with registry := registry, journal := journal } ∧
      journal.context = s.journal.context := by
  have hrecorded : (s.record s.journal.context (s.registry.saveRecorded d)).2 = { s with
      journal := (s.record s.journal.context (s.registry.saveRecorded d)).2.journal } := rfl
  have hcontext : (s.record s.journal.context (s.registry.saveRecorded d)).2.journal.context =
      s.journal.context := rfl
  show ∃ registry journal, (s.save d).2 = { s with registry := registry, journal := journal } ∧
    journal.context = s.journal.context
  unfold save
  revert hrecorded hcontext
  rcases s.record s.journal.context (s.registry.saveRecorded d) with ⟨f | ⟨registry, d'⟩, s'⟩ <;>
    intro hrecorded hcontext
  · exact ⟨s.registry, s'.journal, hrecorded, hcontext⟩
  · refine ⟨registry, s'.journal, ?_, hcontext⟩
    dsimp only at hrecorded ⊢
    rw [hrecorded]

/-- A turn that takes up a call uses it up. -/
theorem calls_take {place : Nat} {turn : Turn} (hready : s.ready[place]? = some turn) :
    (turn.call?.toList ++ (s.take place).calls).Perm s.calls := by
  obtain ⟨hlt, rfl⟩ := List.getElem?_eq_some_iff.mp hready
  have hperm := (List.getElem_cons_eraseIdx_perm hlt).filterMap Turn.call?
  have htake : (s.take place).calls = (s.ready.eraseIdx place).filterMap Turn.call? := by
    unfold Service.take
    rw [hready]
    exact (Keeps.perform _).calls
  rw [htake]
  rw [List.filterMap_cons] at hperm
  unfold calls
  cases hcall : s.ready[place].call? with
  | none => simpa [hcall] using hperm
  | some c => simpa [hcall] using hperm

/-- The calls that are ready after an event were ready before or are made by
    it. -/
theorem calls_step (e : Event) : (s.step e).calls <+~ s.calls ++ e.call?.toList := by
  have hsame : ∀ s' : Service, s'.ready = s.ready → s'.calls <+~ s.calls ++ e.call?.toList := by
    intro s' hs'
    unfold calls
    rw [hs']
    exact (List.sublist_append_left _ _).subperm
  cases e with
  | take place =>
    cases hready : s.ready[place]? with
    | none =>
      refine hsame (s.take place) ?_
      unfold Service.take
      rw [hready]
    | some turn =>
      show (s.take place).calls <+~ s.calls ++ []
      rw [List.append_nil]
      exact (List.sublist_append_right _ _).subperm.trans (calls_take hready).subperm
  | call c =>
    show (s.ready ++ [Turn.call c]).filterMap Turn.call? <+~ s.calls ++ [c]
    rw [List.filterMap_append]
    exact .refl _
  | cancel caller =>
    show (s.ready.filter fun turn => !turn.isCallOf caller).filterMap Turn.call? <+~ s.calls ++ []
    rw [List.append_nil]
    exact (List.filter_sublist.filterMap _).subperm
  | letGo entity year version =>
    rcases s.letGo_cases entity year version with heq | ⟨flight, -, heq⟩
    · exact hsame _ (congrArg ready heq)
    · have hkeeps : s.Keeps (s.letFlightGo flight) :=
        (Keeps.enqueue (by simp [Turn.call?])).after ⟨rfl, rfl, rfl⟩
      rw [heq, hkeeps.calls]
      exact (List.sublist_append_left _ _).subperm
  | addLedger l =>
    obtain ⟨source, heq⟩ := s.exists_addLedger_eq l
    exact hsame _ (by rw [heq])
  | save d =>
    obtain ⟨registry, journal, heq, -⟩ := s.exists_save_eq d
    exact hsame _ (by rw [heq])
  | hold | evict | invalidate | clear | clock => exact hsame _ rfl

theorem calls_run (events : List Event) : (s.run events).calls <+~ s.calls ++ made events := by
  induction events generalizing s with
  | nil => exact (List.append_nil s.calls).symm ▸ .refl _
  | cons e events ih =>
    have hrest : ((s.step e).run events).calls <+~ (s.step e).calls ++ made events := ih
    have hmade : made (e :: events) = e.call?.toList ++ made events := by
      unfold made
      rw [List.filterMap_cons]
      cases e.call? <;> rfl
    rw [hmade, ← List.append_assoc]
    exact hrest.trans ((List.subperm_append_right _).mpr (calls_step e))

/-- The source is only changed by adding a ledger. -/
theorem source_step {e : Event} (h : ∀ l, e ≠ .addLedger l) : (s.step e).source = s.source := by
  cases e with
  | take place =>
    show (s.take place).source = s.source
    unfold Service.take
    split
    · exact (Keeps.perform _).source
    · rfl
  | letGo entity year version =>
    rcases s.letGo_cases entity year version with heq | ⟨flight, -, heq⟩ <;> rw [heq]
    rfl
  | addLedger l => exact absurd rfl (h l)
  | save d =>
    obtain ⟨registry, journal, heq, -⟩ := s.exists_save_eq d
    rw [heq]
  | call | cancel | hold | evict | invalidate | clear | clock => rfl

/-- The registry is only changed by saving. -/
theorem registry_step {e : Event} (h : ∀ d, e ≠ .save d) : (s.step e).registry = s.registry := by
  cases e with
  | take place =>
    show (s.take place).registry = s.registry
    unfold Service.take
    split
    · exact (Keeps.perform _).registry
    · rfl
  | letGo entity year version =>
    rcases s.letGo_cases entity year version with heq | ⟨flight, -, heq⟩ <;> rw [heq]
    rfl
  | addLedger l =>
    obtain ⟨source, heq⟩ := s.exists_addLedger_eq l
    rw [heq]
  | save d => exact absurd rfl (h d)
  | call | cancel | hold | evict | invalidate | clear | clock => rfl

/-- What every event of a run keeps, the run keeps. -/
theorem run_keeps {α : Type} (part : Service → α) {events : List Event}
    (h : ∀ e ∈ events, ∀ s : Service, part (s.step e) = part s) :
    part (s.run events) = part s := by
  induction events generalizing s with
  | nil => rfl
  | cons e events ih =>
    have hrest := ih (s := s.step e) fun e' he' => h e' (List.mem_cons_of_mem e he')
    exact hrest.trans (h e List.mem_cons_self s)

/-- In a run a call is taken up, with the registry of that moment. -/
def TakesUp (s : Service) (events : List Event) (c : Call) (r : Registry) : Prop :=
  ∃ before place after, events = before ++ .take place :: after ∧
    (s.run before).ready[place]? = some (.call c) ∧ (s.run before).registry = r

theorem TakesUp.mem {events : List Event} {c : Call} {r : Registry} (h : s.TakesUp events c r) :
    c ∈ s.calls ++ made events := by
  obtain ⟨before, place, after, rfl, hready, -⟩ := h
  have hmem : c ∈ (s.run before).calls :=
    List.mem_filterMap.mpr ⟨.call c, List.mem_of_getElem? hready, rfl⟩
  rw [made_append, ← List.append_assoc]
  exact List.mem_append_left _ ((calls_run before).subset hmem)

theorem TakesUp.registry_eq {events : List Event} {c : Call} {r : Registry}
    (h : s.TakesUp events c r) (hsaves : ∀ d, .save d ∉ events) : r = s.registry := by
  obtain ⟨before, place, after, rfl, -, rfl⟩ := h
  exact run_keeps registry fun e he _ =>
    registry_step fun d hd => hsaves d (List.mem_append_left _ (hd ▸ he))

/-- A call that is taken up is not among those that are ready later, unless it
    is made once more. -/
theorem cons_calls_subperm {before : List Event} {place : Nat} {c : Call}
    (hready : (s.run before).ready[place]? = some (.call c)) (between : List Event) :
    c :: (s.run (before ++ .take place :: between)).calls <+~
      s.calls ++ made (before ++ .take place :: between) := by
  have hrun : s.run (before ++ .take place :: between) =
      ((s.run before).take place).run between := run_append s before _
  have hbetween : c :: (((s.run before).take place).run between).calls <+~
      c :: (((s.run before).take place).calls ++ made between) :=
    (List.subperm_cons c).mpr (calls_run between)
  have hbefore : c :: (((s.run before).take place).calls ++ made between) <+~
      s.calls ++ made before ++ made between :=
    (List.subperm_append_right _).mpr ((calls_take hready).subperm.trans (calls_run before))
  rw [hrun, made_append, ← List.append_assoc]
  exact hbetween.trans hbefore

/-- Where every caller makes one call, a caller's call is taken up once. -/
theorem TakesUp.unique {events : List Event} {c c' : Call} {r r' : Registry}
    (h : s.TakesUp events c r) (h' : s.TakesUp events c' r') (hcaller : c.caller = c'.caller)
    (honce : ((s.calls ++ made events).map (·.caller)).Nodup) : c = c' ∧ r = r' := by
  have hsecond : ∀ {before between after : List Event} {place place' : Nat} {c c' : Call},
      c.caller = c'.caller →
      ((s.calls ++ made ((before ++ .take place :: between) ++ after)).map (·.caller)).Nodup →
      (s.run before).ready[place]? = some (.call c) →
      (s.run (before ++ .take place :: between)).ready[place']? ≠ some (.call c') := by
    intro before between after place place' c c' hcaller honce hready hready'
    have hmem : c' ∈ (s.run (before ++ .take place :: between)).calls :=
      List.mem_filterMap.mpr ⟨.call c', List.mem_of_getElem? hready', rfl⟩
    rw [made_append, ← List.append_assoc] at honce
    obtain ⟨l, hperm, hsub⟩ := (cons_calls_subperm hready between).trans
      (List.sublist_append_left _ (made after)).subperm
    have hnodup := ((hperm.map Call.caller).nodup_iff).mp (honce.sublist (hsub.map Call.caller))
    exact (List.nodup_cons.mp hnodup).1 (List.mem_map.mpr ⟨c', hmem, hcaller.symm⟩)
  obtain ⟨before, place, after, rfl, hready, rfl⟩ := h
  obtain ⟨before', place', after', heq, hready', rfl⟩ := h'
  rcases List.append_eq_append_iff.mp heq with ⟨more, hmore, hrest⟩ | ⟨more, hmore, hrest⟩
  · cases more with
    | nil =>
      obtain rfl : before' = before := by simpa using hmore
      obtain ⟨⟨⟩, -⟩ := List.cons.inj hrest
      rw [hready] at hready'
      cases hready'
      exact ⟨rfl, rfl⟩
    | cons e more =>
      obtain ⟨rfl, -⟩ := List.cons.inj hrest
      subst hmore
      exact absurd hready' (hsecond hcaller (heq ▸ honce) hready)
  · cases more with
    | nil =>
      obtain rfl : before = before' := by simpa using hmore
      obtain ⟨⟨⟩, -⟩ := List.cons.inj hrest
      rw [hready] at hready'
      cases hready'
      exact ⟨rfl, rfl⟩
    | cons e more =>
      obtain ⟨rfl, -⟩ := List.cons.inj hrest
      subst hmore
      exact absurd hready (hsecond hcaller.symm honce hready')

end Service

end KeyFigures
