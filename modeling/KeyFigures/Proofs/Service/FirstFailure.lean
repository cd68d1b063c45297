/-
  KeyFigures/Proofs/Service/FirstFailure.lean
  ===========================================
  **A fan-out ends with all results or with its first failure.**

  What the jobs do is told apart from what the call makes of it.  A job ends
  when it comes to something: where it starts, or at an event of its own
  (`endingIn`), and `endings` lists the jobs of a run in the order in which they
  end.  Of what they come to, the call has taken in a first part and the rest is
  still reported to it, in that order (`Tracks`); so the failure that the call
  goes by is the first among the endings.  Every operation starts some jobs and
  ends some (`Moves`), and from this follows what an event does (`Open.step`).

  The main statement, `Course.all_results_or_first_failure`, is about courses: any
  way in which jobs begin and end under a limit, with or without a cancellation
  from outside.
-/
import KeyFigures.Proofs.Service.Gathering

namespace KeyFigures.FanOut

variable {β : Type} {w : Nat → Attempt β} {n : Nat} {limit : Option Nat} {f g k : FanOut β} {job : Nat}
  {launched launched' through through' : List Nat}

/-! ### Endings -/

/-- The jobs that end in an event. -/
def endingIn (f : FanOut β) : Event β → List Nat
  | .take => (f.take.started.drop f.started.length).filter fun job => (f.immediate job).isSome
  | .finish job _ => if job ∈ f.running then [job] else []
  | .cancel => []

/-- The jobs that end in a run, in that order. -/
def endings (f : FanOut β) : List (Event β) → List Nat
  | [] => []
  | e :: events => f.endingIn e ++ (f.step e).endings events

/-- The first failure that jobs come to. -/
def firstFailure (w : Nat → Attempt β) (jobs : List Nat) : Option Failure :=
  jobs.findSome? fun job =>
    match w job with
    | .error cause => some cause
    | .ok _ => none

theorem firstFailure_append (w : Nat → Attempt β) (jobs more : List Nat) :
    firstFailure w (jobs ++ more) = (firstFailure w jobs).or (firstFailure w more) :=
  List.findSome?_append

theorem firstFailure_singleton_ok {v : β} (h : w job = .ok v) : firstFailure w [job] = none := by
  simp [firstFailure, h]

theorem firstFailure_singleton_error {cause : Failure} (h : w job = .error cause) :
    firstFailure w [job] = some cause := by
  simp [firstFailure, h]

theorem firstFailure_eq_none (h : ∀ job ∈ through, ∃ v, w job = .ok v) :
    firstFailure w through = none := by
  refine List.findSome?_eq_none_iff.mpr fun job hjob => ?_
  obtain ⟨v, hv⟩ := h job hjob
  rw [hv]

/-! ### What the operations do to the jobs -/

@[simp]
theorem Turn.reporting_append (turns more : List (Turn β)) :
    reporting (turns ++ more) = reporting turns ++ reporting more :=
  List.filterMap_append

/-- From `f` to `g` the jobs `launched` start and the jobs `through` come to
    something, which is reported to the call. -/
structure Moves (f g : FanOut β) (launched through : List Nat) : Prop where
  started_eq : g.started = f.started ++ launched
  running_perm : (g.running ++ through).Perm (f.running ++ launched)
  reporting_eq : Turn.reporting g.ready = Turn.reporting f.ready ++ through
  immediate_eq : g.immediate = f.immediate
  failure_eq : g.failure = f.failure
  cancelled_eq : g.cancelled = f.cancelled

/-- Changing the slots makes at most the turn of a granted job ready. -/
theorem withSlots_eq (f : FanOut β) (change : Slots → Slots × Option Nat) :
    ∃ slots turns, f.withSlots change = { f with slots := slots, ready := f.ready ++ turns } ∧
      Turn.reporting turns = [] := by
  unfold withSlots
  cases f.slots with
  | none => exact ⟨f.slots, [], by simp, rfl⟩
  | some s =>
    refine ⟨some (change s).1, ((change s).2.map Turn.granted).toList, rfl, ?_⟩
    cases (change s).2 <;> rfl

namespace Moves

theorem trans (h : Moves f g launched through) (h' : Moves g k launched' through') :
    Moves f k (launched ++ launched') (through ++ through') where
  started_eq := by rw [h'.started_eq, h.started_eq, List.append_assoc]
  running_perm := by
    refine List.perm_iff_count.mpr fun x => ?_
    have hfirst := h.running_perm.count_eq x
    have hthen := h'.running_perm.count_eq x
    simp only [List.count_append] at hfirst hthen ⊢
    omega
  reporting_eq := by rw [h'.reporting_eq, h.reporting_eq, List.append_assoc]
  immediate_eq := h'.immediate_eq.trans h.immediate_eq
  failure_eq := h'.failure_eq.trans h.failure_eq
  cancelled_eq := h'.cancelled_eq.trans h.cancelled_eq

theorem withSlots (f : FanOut β) (change : Slots → Slots × Option Nat) :
    Moves f (f.withSlots change) [] [] := by
  obtain ⟨slots, turns, heq, hturns⟩ := f.withSlots_eq change
  rw [heq]
  exact ⟨by simp, .refl _, by simp [hturns], rfl, rfl, rfl⟩

theorem taking (f : FanOut β) (slots : Option Slots) : Moves f { f with slots := slots } [] [] :=
  ⟨by simp, .refl _, by simp, rfl, rfl, rfl⟩

/-- A job that is no longer counted as running ends. -/
theorem finish {running : List Nat} (h : (running ++ [job]).Perm (f.running ++ launched))
    (outcome : Attempt β) :
    Moves f (({ f with started := f.started ++ launched, running := running } : FanOut β).finish job
      outcome) launched [job] := by
  obtain ⟨slots, turns, heq, hturns⟩ :=
    ({ f with started := f.started ++ launched, running := running } : FanOut β).withSlots_eq
      Slots.release
  unfold FanOut.finish
  rw [heq]
  refine ⟨rfl, h, ?_, rfl, rfl, rfl⟩
  show Turn.reporting (f.ready ++ turns ++ [.report job outcome]) = _
  rw [Turn.reporting_append, Turn.reporting_append, hturns, List.append_nil]
  rfl

/-- A job that starts ends there if it comes to something at once. -/
theorem launch (f : FanOut β) (job : Nat) :
    Moves f (f.launch job) [job] ([job].filter fun job => (f.immediate job).isSome) := by
  unfold FanOut.launch
  dsimp only
  cases himmediate : f.immediate job with
  | none => simpa [himmediate] using ⟨rfl, by simp, by simp, rfl, rfl, rfl⟩
  | some outcome => simpa [himmediate] using finish (.refl (f.running ++ [job])) outcome

/-- A job that begins starts now or queues. -/
theorem begin (f : FanOut β) (job : Nat) :
    ∃ launched,
      Moves f (f.begin job) launched (launched.filter fun job => (f.immediate job).isSome) := by
  unfold FanOut.begin
  cases f.slots with
  | none => exact ⟨[job], launch f job⟩
  | some s =>
    dsimp only
    split
    · exact ⟨[job], (taking f _).trans (launch _ job)⟩
    · exact ⟨[], taking f _⟩

/-- A job that goes on with its slot starts. -/
theorem granted (f : FanOut β) (job : Nat) :
    Moves f ((f.withSlots fun slots => slots.proceed job).launch job) [job]
      ([job].filter fun job => (f.immediate job).isSome) := by
  have hgiven := withSlots f fun slots => slots.proceed job
  have hlaunch := launch (f.withSlots fun slots => slots.proceed job) job
  rw [hgiven.immediate_eq] at hlaunch
  exact hgiven.trans hlaunch

/-- An event in which a running job ends starts none. -/
theorem finishEvent (hrunning : job ∈ f.running) (outcome : Attempt β) :
    Moves f (f.step (.finish job outcome)) [] [job] := by
  have herase : (f.running.erase job ++ [job]).Perm (f.running ++ []) := by
    rw [List.append_nil]
    exact (List.perm_append_singleton job _).trans (List.perm_cons_erase hrunning).symm
  have hfinish := finish herase outcome
  rw [List.append_nil] at hfinish
  unfold step
  dsimp only
  rwa [if_pos hrunning]

/-- A turn that is no report moves the jobs as if it had not been ready. -/
theorem of_pop {turn : Turn β} {rest : List (Turn β)} (hready : f.ready = turn :: rest)
    (hturn : turn.reporting? = none) (h : Moves { f with ready := rest } g launched through) :
    Moves f g launched through := by
  refine { h with reporting_eq := ?_ }
  rw [h.reporting_eq, hready]
  simp [Turn.reporting, hturn]

end Moves

/-! ### The call goes by the first failure -/

/-- The jobs that have ended are told apart from those that run, and what they
    came to is taken in in the order of their endings. -/
structure Tracks (w : Nat → Attempt β) (through : List Nat) (f : FanOut β) : Prop where
  places : (f.running ++ through).Perm f.started
  taken : ∃ taken, through = taken ++ Turn.reporting f.ready ∧ f.failure = firstFailure w taken
  cancelled_eq : f.cancelled = []

namespace Tracks

theorem moves (h : f.Tracks w through) (hmoves : Moves f g launched through') :
    g.Tracks w (through ++ through') := by
  obtain ⟨taken, hended, hfailure⟩ := h.taken
  refine ⟨List.perm_iff_count.mpr fun x => ?_, ⟨taken, ?_, ?_⟩, ?_⟩
  · have hplaces := h.places.count_eq x
    have hrunning := hmoves.running_perm.count_eq x
    rw [hmoves.started_eq]
    simp only [List.count_append] at hplaces hrunning ⊢
    omega
  · rw [hmoves.reporting_eq, hended, List.append_assoc]
  · exact hmoves.failure_eq.trans hfailure
  · exact hmoves.cancelled_eq.trans h.cancelled_eq

/-- The first of the reports is taken in. -/
theorem collect {rest : List (Turn β)} {outcome : Attempt β}
    (hready : f.ready = .report job outcome :: rest) (houtcome : outcome = w job)
    (h : f.Tracks w through) :
    (({ f with ready := rest } : FanOut β).collect job outcome).Tracks w through := by
  obtain ⟨taken, hended, hfailure⟩ := h.taken
  have htaken : through = (taken ++ [job]) ++ Turn.reporting rest := by
    rw [hended, hready, List.append_assoc]
    rfl
  have hwake : through = (taken ++ [job]) ++ Turn.reporting (rest ++ [.wake]) := by
    rw [htaken, Turn.reporting_append]
    exact (congrArg _ (List.append_nil _)).symm
  have hfirst : firstFailure w (taken ++ [job]) = f.failure.or (firstFailure w [job]) := by
    rw [firstFailure_append, ← hfailure]
  unfold FanOut.collect
  dsimp only
  by_cases hfailed : f.failure.isSome
  · rw [if_pos hfailed]
    obtain ⟨cause, hcause⟩ := Option.isSome_iff_exists.mp hfailed
    refine ⟨h.places, ⟨_, htaken, ?_⟩, h.cancelled_eq⟩
    rw [hfirst, hcause]
    rfl
  rw [if_neg hfailed]
  rw [Option.not_isSome_iff_eq_none.mp hfailed, Option.none_or] at hfirst
  cases outcome with
  | error cause =>
    refine ⟨h.places, ⟨_, hwake, ?_⟩, h.cancelled_eq⟩
    rw [hfirst, firstFailure_singleton_error houtcome.symm]
    rfl
  | ok v =>
    have hnone : f.failure = firstFailure w (taken ++ [job]) := by
      rw [hfirst, firstFailure_singleton_ok houtcome.symm]
      exact Option.not_isSome_iff_eq_none.mp hfailed
    dsimp only
    split
    · exact ⟨h.places, ⟨_, hwake, hnone⟩, h.cancelled_eq⟩
    · exact ⟨h.places, ⟨_, htaken, hnone⟩, h.cancelled_eq⟩

/-- A turn that concerns no job changes nothing here. -/
theorem pop_wake {rest : List (Turn β)} (hready : f.ready = .wake :: rest) (h : f.Tracks w through)
    (conclusion : Option (Conclusion β)) :
    ({ f with ready := rest, conclusion := conclusion } : FanOut β).Tracks w through := by
  obtain ⟨taken, hended, hfailure⟩ := h.taken
  refine ⟨h.places, ⟨taken, ?_, hfailure⟩, h.cancelled_eq⟩
  rw [hended, hready]
  rfl

end Tracks

/-- What the call goes by is the first failure of the jobs that have ended. -/
theorem Tracks.firstFailure_eq {cause : Failure} (h : f.Tracks w through)
    (hfailure : f.failure = some cause) : firstFailure w through = some cause := by
  obtain ⟨taken, rfl, hfirst⟩ := h.taken
  rw [firstFailure_append, ← hfirst, hfailure]
  rfl

/-! ### What one event does -/

/-- The jobs that a turn starts, and those of them that end at once; a turn in
    which the call goes on starts none. -/
theorem take_cases (f : FanOut β) :
    (∃ launched, Moves f f.take launched (launched.filter fun job => (f.immediate job).isSome)) ∨
      (∃ job outcome rest, f.ready = .report job outcome :: rest ∧
        f.take = ({ f with ready := rest } : FanOut β).collect job outcome) ∨
      ∃ rest, f.ready = .wake :: rest ∧ f.take = ({ f with ready := rest } : FanOut β).conclude := by
  unfold take
  cases hready : f.ready with
  | nil => exact .inl ⟨[], Moves.taking f f.slots⟩
  | cons turn rest =>
    cases turn with
    | begin job =>
      obtain ⟨launched, hbegun⟩ := Moves.begin { f with ready := rest } job
      exact .inl ⟨launched, hbegun.of_pop hready rfl⟩
    | granted job =>
      exact .inl ⟨[job], (Moves.granted { f with ready := rest } job).of_pop hready rfl⟩
    | report job outcome => exact .inr (.inl ⟨job, outcome, rest, rfl, rfl⟩)
    | wake => exact .inr (.inr ⟨rest, rfl, rfl⟩)

theorem started_collect (f : FanOut β) (job : Nat) (outcome : Attempt β) :
    (f.collect job outcome).started = f.started := by
  unfold collect
  split
  · rfl
  · cases outcome with
    | error cause => rfl
    | ok v =>
      dsimp only
      split <;> rfl

theorem started_conclude (f : FanOut β) : f.conclude.started = f.started := by
  unfold conclude
  split <;> rfl

/-- Jobs that end where they start are the only ones that end in a turn. -/
theorem endingIn_take_of_moves
    (h : Moves f f.take launched (launched.filter fun job => (f.immediate job).isSome)) :
    f.endingIn .take = launched.filter fun job => (f.immediate job).isSome := by
  unfold endingIn
  rw [h.started_eq, List.drop_left]

theorem endingIn_take_of_started_eq (h : f.take.started = f.started) : f.endingIn .take = [] := by
  unfold endingIn
  rw [h, List.drop_length, List.filter_nil]

namespace Tracks

/-- A turn is tracked, unless it ends the call for a failure. -/
theorem take (h : f.Tracks w through) (hsound : f.Sound w n limit) :
    f.take.Tracks w (through ++ f.endingIn .take) ∨
      ∃ cause, f.failure = some cause ∧ f.take = f.stop (.failed cause) := by
  rcases f.take_cases with
    ⟨launched, hmoves⟩ | ⟨job, outcome, rest, hready, htake⟩ | ⟨rest, hready, htake⟩
  · rw [endingIn_take_of_moves hmoves]
    exact .inl (h.moves hmoves)
  · have houtcome := hsound.placed.report_eq job outcome (by rw [hready]; exact List.mem_cons_self)
    rw [endingIn_take_of_started_eq (htake ▸ started_collect _ job outcome), List.append_nil, htake]
    exact .inl (h.collect hready houtcome)
  · rcases Option.eq_none_or_eq_some f.failure with hfailure | ⟨cause, hfailure⟩
    · rw [endingIn_take_of_started_eq (htake ▸ started_conclude _), List.append_nil, htake]
      have hconclude : ({ f with ready := rest } : FanOut β).conclude =
          { f with ready := rest, conclusion := some (.values f.ordered) } :=
        conclude_of_none hfailure
      rw [hconclude]
      exact .inl (h.pop_wake hready _)
    · have hconclude : ({ f with ready := rest } : FanOut β).conclude = f.stop (.failed cause) :=
        conclude_of_failure hfailure
      exact .inr ⟨cause, hfailure, htake.trans hconclude⟩

/-- The end of a running job is tracked. -/
theorem finish (h : f.Tracks w through) (hrunning : job ∈ f.running) (outcome : Attempt β) :
    (f.step (.finish job outcome)).Tracks w (through ++ f.endingIn (.finish job outcome)) := by
  have hends : f.endingIn (.finish job outcome) = [job] := if_pos hrunning
  rw [hends]
  exact h.moves (.finishEvent hrunning outcome)

end Tracks

/-- A call that goes on: what its jobs have come to so far, and in which order. -/
structure Open (w : Nat → Attempt β) (n : Nat) (limit : Option Nat) (through : List Nat)
    (f : FanOut β) : Prop extends Sound w n limit f, Tracks w through f

/-- A call that has ended early: no job is left running, and those that had not
    come to anything were cancelled. -/
structure Over (n : Nat) (through : List Nat) (c : Conclusion β) (f : FanOut β) : Prop where
  conclusion_eq : f.conclusion = some c
  ready_eq : f.ready = []
  running_eq : f.running = []
  once : f.started.Subperm (List.range n)
  places : (f.cancelled ++ through).Perm f.started

/-- **An event is tracked or ends the call early**, for the first failure or by
    a cancellation. -/
theorem Open.step (h : f.Open w n limit through) {e : Event β} (he : e.Follows w) :
    (f.step e).Open w n limit (through ++ f.endingIn e) ∨
      ∃ c, (f.step e).Over n (through ++ f.endingIn e) c ∧
        ((∃ cause, c = .failed cause ∧ firstFailure w (through ++ f.endingIn e) = some cause) ∨
          c = .cancelled ∧ e = .cancel) := by
  have hstop : ∀ c, (f.stop c).Over n through c := fun c =>
    ⟨rfl, rfl, rfl, h.toSound.started_subperm, h.places⟩
  have hfailed : ∀ cause, f.failure = some cause → f.take = f.stop (.failed cause) →
      ∃ c, (f.step .take).Over n (through ++ f.endingIn .take) c ∧
        ((∃ cause, c = .failed cause ∧
          firstFailure w (through ++ f.endingIn .take) = some cause) ∨
          c = .cancelled ∧ (.take : Event β) = .cancel) := by
    intro cause hfailure htake
    have hnone : f.endingIn .take = [] := by
      refine endingIn_take_of_started_eq ?_
      rw [htake]
      rfl
    show ∃ c, f.take.Over n (through ++ f.endingIn .take) c ∧ _
    rw [hnone, List.append_nil, htake]
    exact ⟨_, hstop _, .inl ⟨cause, rfl, h.firstFailure_eq hfailure⟩⟩
  cases e with
  | take =>
    rcases h.toTracks.take h.toSound with htracks | ⟨cause, hfailure, htake⟩
    · rcases h.toSound.take with hsound | ⟨cause, hfailure, htake⟩
      · exact .inl { hsound, htracks with }
      · exact .inr (hfailed cause hfailure htake)
    · exact .inr (hfailed cause hfailure htake)
  | finish job outcome =>
    by_cases hrunning : job ∈ f.running
    · exact .inl { h.toSound.finish hrunning he, h.toTracks.finish hrunning outcome with }
    · have hstay : f.step (.finish job outcome) = f := if_neg hrunning
      have hnone : f.endingIn (.finish job outcome) = [] := if_neg hrunning
      rw [hstay, hnone, List.append_nil]
      exact .inl h
  | cancel =>
    have hnone : through ++ f.endingIn .cancel = through := List.append_nil through
    rw [hnone]
    unfold FanOut.step
    dsimp only
    split
    · exact .inl h
    · exact .inr ⟨_, hstop _, .inr ⟨rfl, rfl⟩⟩

/-- A call that has ended early stays as it is. -/
theorem Over.step {c : Conclusion β} (h : f.Over n through c) (e : Event β) :
    f.step e = f ∧ f.endingIn e = [] := by
  have htake : f.take = f := by
    unfold take
    rw [h.ready_eq]
  cases e with
  | take => exact ⟨htake, endingIn_take_of_started_eq (congrArg started htake)⟩
  | finish job outcome =>
    have hrunning : job ∉ f.running := by rw [h.running_eq]; exact List.not_mem_nil
    exact ⟨if_neg hrunning, if_neg hrunning⟩
  | cancel => exact ⟨if_pos (by rw [h.conclusion_eq]; rfl), rfl⟩

/-! ### Runs -/

/-- A fan-out starts open. -/
theorem open_start {size : Nat} {immediate : Nat → Option (Attempt β)}
    (himmediate : ∀ job outcome, immediate job = some outcome → outcome = w job) :
    (start size limit immediate).Open w size limit [] := by
  have hreporting : Turn.reporting (start size limit immediate).ready = [] :=
    List.filterMap_eq_nil_iff.mpr fun _ hturn => (of_mem_start hturn).2
  exact { Sound.start himmediate with
    places := .refl _
    taken := ⟨[], by rw [hreporting]; rfl, rfl⟩
    cancelled_eq := rfl }

/-- An event over which a call that has ended early stays as it is. -/
theorem Over.run {c : Conclusion β} (h : f.Over n through c) (events : List (Event β)) :
    f.run events = f ∧ f.endings events = [] := by
  induction events with
  | nil => exact ⟨rfl, rfl⟩
  | cons e events ih =>
    obtain ⟨hstep, hnone⟩ := h.step e
    refine ⟨?_, ?_⟩
    · show (f.step e).run events = f
      rw [hstep]
      exact ih.1
    · rw [endings, hnone, hstep]
      exact ih.2

/-- **A run is open or has ended early**, for the first failure or because it was
    cancelled. -/
theorem Open.run (h : f.Open w n limit through) {events : List (Event β)}
    (hevents : ∀ e ∈ events, e.Follows w) :
    (f.run events).Open w n limit (through ++ f.endings events) ∨
      ∃ c, (f.run events).Over n (through ++ f.endings events) c ∧
        ((∃ cause, c = .failed cause ∧
          firstFailure w (through ++ f.endings events) = some cause) ∨
          c = .cancelled ∧ .cancel ∈ events) := by
  induction events generalizing f through with
  | nil =>
    rw [endings, List.append_nil]
    exact .inl h
  | cons e events ih =>
    obtain ⟨he, hevents⟩ := List.forall_mem_cons.mp hevents
    rw [endings, ← List.append_assoc]
    show ((f.step e).run events).Open _ _ _ _ ∨ ∃ c, ((f.step e).run events).Over _ _ c ∧ _
    rcases h.step he with hopen | ⟨c, hover, hc⟩
    · rcases ih hopen hevents with hrun | ⟨c, hrun, hc⟩
      · exact .inl hrun
      · exact .inr ⟨c, hrun, hc.imp_right fun hc => ⟨hc.1, List.mem_cons_of_mem e hc.2⟩⟩
    · obtain ⟨hrun, hnone⟩ := hover.run events
      rw [hrun, hnone, List.append_nil]
      refine .inr ⟨c, hover, hc.imp_right ?_⟩
      rintro ⟨rfl, rfl⟩
      exact ⟨rfl, List.mem_cons_self⟩

/-! ### The limit -/

namespace Sound

/-- At no moment do more jobs run than there are slots. -/
theorem length_running_le {m : Nat} (h : f.Sound w n limit) (hlimit : limit = some m) :
    f.running.length ≤ m := by
  cases h.slots with
  | unlimited hnone => exact absurd (hnone.symm.trans hlimit) nofun
  | limited hsome _ hunused =>
    obtain rfl := Option.some.inj (hsome.symm.trans hlimit)
    omega

/-- A job starts only while a slot is free, or with one that was given to it. -/
theorem length_running_lt {m : Nat} (h : f.Sound w n limit) (hlimit : limit = some m)
    (hstarts : f.take.started ≠ f.started) : f.running.length < m := by
  cases h.slots with
  | unlimited hnone => exact absurd (hnone.symm.trans hlimit) nofun
  | @limited m' s hsome hs hunused hgranted =>
    obtain rfl : m' = m := Option.some.inj (hsome.symm.trans hlimit)
    suffices 0 < s.unused by omega
    cases hready : f.ready with
    | nil => exact absurd (by unfold FanOut.take; rw [hready]) hstarts
    | cons turn rest =>
      have htake : f.take = ({ f with ready := rest } : FanOut β).perform turn := by
        unfold FanOut.take
        rw [hready]
      rw [htake] at hstarts
      cases turn with
      | begin job =>
        by_contra hnone
        have hbusy : s.isBusy = true := by
          simp [Slots.isBusy, show s.free = 0 by unfold Slots.unused at hnone; omega]
        refine hstarts ?_
        show (({ f with ready := rest } : FanOut β).begin job).started = f.started
        simp [FanOut.begin, hs, Slots.acquire, hbusy]
      | granted job =>
        rw [Slots.unused, hgranted, hready]
        exact Nat.lt_of_lt_of_le (Nat.succ_pos _) (Nat.le_add_left _ _)
      | report job outcome => exact absurd (started_collect _ job outcome) hstarts
      | wake => exact absurd (started_conclude _) hstarts

/-! ### Calls that have all results -/

/-- In a call that has its results no job is left running and none starts any
    more. -/
theorem values_of_concluded (h : f.Sound w n limit) {c : Conclusion β}
    (hconclusion : f.conclusion = some c) :
    ∃ vs, c = .values vs ∧ (List.range n).mapM w = .ok vs ∧ f.started.Perm (List.range n) ∧
      f.running = [] := by
  obtain ⟨rfl, -, hall⟩ := h.wakes.concluded c hconclusion
  rw [h.placed.size_eq] at hall
  have hstarted := (h.perm_of_complete hall).2
  refine ⟨_, rfl, h.mapM_eq_ordered hall, hstarted, ?_⟩
  obtain ⟨lost, halong, -⟩ := h.placed.along
  have hlength := (halong.trans hstarted).length_eq
  simp only [List.length_append, List.length_map, hall, List.length_range] at hlength
  exact List.eq_nil_of_length_eq_zero (by omega)

end Sound

theorem started_take_prefix (f : FanOut β) : f.started <+: f.take.started := by
  rcases f.take_cases with ⟨launched, hmoves⟩ | ⟨job, outcome, rest, -, htake⟩ | ⟨rest, -, htake⟩
  · rw [hmoves.started_eq]
    exact List.prefix_append _ _
  · rw [htake, started_collect]
  · rw [htake, started_conclude]

/-- Once every job has started, none starts any more. -/
theorem Sound.started_step_of_perm (h : f.Sound w n limit) (hall : f.started.Perm (List.range n))
    (e : Event β) : (f.step e).started = f.started := by
  cases e with
  | take =>
    rcases h.take with hsound | ⟨cause, -, htake⟩
    · refine (f.started_take_prefix.eq_of_length_le ?_).symm
      exact hsound.started_subperm.length_le.trans hall.length_eq.ge
    · show f.take.started = _
      rw [htake]
      rfl
  | finish job outcome =>
    by_cases hrunning : job ∈ f.running
    · exact (Moves.finishEvent hrunning outcome).started_eq.trans (List.append_nil _)
    · exact congrArg started (if_neg hrunning)
  | cancel =>
    unfold FanOut.step
    dsimp only
    split <;> rfl

/-! ### Calls that can go on -/

/-- A call without a conclusion can go on, and once a job has failed it needs no
    other job for that. -/
theorem Open.goesOn (h : f.Open w n limit through) (hlimit : limit ≠ some 0)
    (hopen : f.conclusion = none) :
    f.ready ≠ [] ∨ firstFailure w through = none ∧ f.running ≠ [] := by
  rcases Option.eq_none_or_eq_some (firstFailure w through) with hnone | ⟨cause, hcause⟩
  · exact (h.toSound.canGoOn hlimit hopen).imp_right fun hrunning => ⟨hnone, hrunning⟩
  · refine .inl fun hready => ?_
    obtain ⟨taken, rfl, hfailure⟩ := h.taken
    rw [hready] at hcause
    rw [show taken ++ Turn.reporting ([] : List (Turn β)) = taken from List.append_nil taken,
      ← hfailure] at hcause
    rcases h.wakes.woken (.inl (by rw [hcause]; rfl)) with hwake | hconclusion
    · rw [hready] at hwake
      cases hwake
    · rw [hopen] at hconclusion
      cases hconclusion

/-! ### Courses -/

/-- A course of a fan-out: a limit, if there is one, what its jobs come to, which
    of them come to it where they start, and events in any order.  The call may
    be cancelled among them. -/
structure Course (β : Type) where
  size : Nat
  limit : Option Nat
  limit_ne : limit ≠ some 0
  outcome : Nat → Attempt β
  atOnce : Nat → Bool
  events : List (Event β)
  follows : ∀ e ∈ events, e.Follows outcome

namespace Course

/-- The fan-out before its first turn. -/
def begun (c : Course β) : FanOut β :=
  start c.size c.limit fun job => if c.atOnce job then some (c.outcome job) else none

/-- The fan-out after the events. -/
def state (c : Course β) : FanOut β := c.begun.run c.events

/-- The jobs that have ended, in the order of their endings. -/
def ended (c : Course β) : List Nat := c.begun.endings c.events

/-- The failure that came first, if one has come. -/
def firstFailure (c : Course β) : Option Failure := FanOut.firstFailure c.outcome c.ended

/-- What holds of a fan-out at every moment.  The call returns what the jobs have
    come to, in the order of the items, or raises the failure that came first; in
    that case what has started and not ended was cancelled. -/
structure IsOrderly (c : Course β) : Prop where
  bounded : ∀ m, c.limit = some m → c.state.running.length ≤ m
  /-- A job that ends where it starts needs a slot for that time, too. -/
  startsBelow : ∀ m, c.limit = some m → c.state.take.started ≠ c.state.started →
    c.state.running.length < m
  once : c.state.started.Subperm (List.range c.size)
  /-- A job that has started runs, was cancelled or has ended. -/
  places : (c.state.running ++ c.state.cancelled ++ c.ended).Perm c.state.started
  /-- Once a job has failed the call does not wait for another one. -/
  goesOn : c.state.conclusion = none →
    c.state.ready ≠ [] ∨ c.firstFailure = none ∧ c.state.running ≠ []
  finite : c.begun.ActsAll c.events → c.events.length ≤ 6 * c.size + 1
  stops : ∀ k, c.state.conclusion = some k →
    c.state.running = [] ∧ ∀ e, (c.state.step e).started = c.state.started
  returns : ∀ k, c.state.conclusion = some k → .cancel ∉ c.events → c.firstFailure = none →
    ∃ results, k = .values results ∧ (List.range c.size).mapM c.outcome = .ok results ∧
      c.ended.Perm (List.range c.size)
  raises : ∀ k cause, c.state.conclusion = some k → .cancel ∉ c.events →
    c.firstFailure = some cause →
      k = .failed cause ∧ (c.state.cancelled ++ c.ended).Perm c.state.started

variable (c : Course β)

theorem length_events_le (h : c.begun.ActsAll c.events) : c.events.length ≤ 6 * c.size + 1 :=
  (length_le_left h).trans (left_start_le _ _ _)

theorem open_begun : c.begun.Open c.outcome c.size c.limit [] := by
  refine open_start fun job outcome hatOnce => ?_
  split at hatOnce
  · exact (Option.some.inj hatOnce).symm
  · cases hatOnce

/-- An open call that has a conclusion has the results of all jobs. -/
theorem isOrderly_of_open (h : c.state.Open c.outcome c.size c.limit c.ended) : c.IsOrderly where
  bounded := fun _ hlimit => h.length_running_le hlimit
  startsBelow := fun _ hlimit hstarts => h.length_running_lt hlimit hstarts
  once := h.started_subperm
  places := by
    rw [h.cancelled_eq, List.append_nil]
    exact h.places
  goesOn := h.goesOn c.limit_ne
  finite := c.length_events_le
  stops := by
    intro k hk
    obtain ⟨-, -, -, hstarted, hrunning⟩ := h.values_of_concluded hk
    exact ⟨hrunning, h.started_step_of_perm hstarted⟩
  returns := by
    intro k hk _ _
    obtain ⟨results, rfl, hresults, hstarted, hrunning⟩ := h.values_of_concluded hk
    have hplaces := h.places
    rw [hrunning, List.nil_append] at hplaces
    exact ⟨results, rfl, hresults, hplaces.trans hstarted⟩
  raises := by
    intro k cause hk _ hcause
    obtain ⟨results, -, hresults, hstarted, hrunning⟩ := h.values_of_concluded hk
    have hplaces := h.places
    rw [hrunning, List.nil_append] at hplaces
    have hnone : c.firstFailure = none := by
      refine firstFailure_eq_none fun job hjob => ?_
      obtain ⟨v, -, hv⟩ := exists_of_mem_of_mapM hresults ((hplaces.trans hstarted).subset hjob)
      exact ⟨v, hv⟩
    rw [hnone] at hcause
    cases hcause

/-- A call that has ended early goes by the first failure, if it was not
    cancelled. -/
theorem isOrderly_of_over {k : Conclusion β} (h : c.state.Over c.size c.ended k)
    (hk : (∃ cause, k = .failed cause ∧ c.firstFailure = some cause) ∨
      k = .cancelled ∧ .cancel ∈ c.events) : c.IsOrderly where
  bounded := by
    intro m _
    rw [h.running_eq]
    exact Nat.zero_le m
  startsBelow := fun _ _ hstarts => absurd (congrArg started (h.step .take).1) hstarts
  once := h.once
  places := by
    rw [h.running_eq]
    exact h.places
  goesOn := fun hopen => absurd (h.conclusion_eq.symm.trans hopen) nofun
  finite := c.length_events_le
  stops := fun _ _ => ⟨h.running_eq, fun e => congrArg started (h.step e).1⟩
  returns := by
    intro k' _ hcancel hnone
    rcases hk with ⟨cause, -, hcause⟩ | ⟨-, hmem⟩
    · rw [hnone] at hcause
      cases hcause
    · exact absurd hmem hcancel
  raises := by
    intro k' cause' hk' hcancel hcause'
    obtain rfl : k = k' := Option.some.inj (h.conclusion_eq.symm.trans hk')
    rcases hk with ⟨cause, rfl, hcause⟩ | ⟨-, hmem⟩
    · rw [Option.some.inj (hcause.symm.trans hcause')]
      exact ⟨rfl, h.places⟩
    · exact absurd hmem hcancel

/-- **A fan-out keeps its limit and ends with all results or with its first
    failure**, whatever the order in which its jobs begin and end. -/
theorem all_results_or_first_failure : c.IsOrderly := by
  rcases c.open_begun.run c.follows with hopen | ⟨k, hover, hk⟩
  · exact c.isOrderly_of_open hopen
  · exact c.isOrderly_of_over hover hk

end Course

/-- Four jobs, three at a time: the second fails, and while the call has not heard
    of it the last one starts and the first fails too. -/
def secondFailsFirst : Course Nat where
  size := 4
  limit := some 3
  limit_ne := by decide
  outcome
    | 0 => .error (.runtime "first")
    | 1 => .error (.runtime "second")
    | job => .ok job
  atOnce := fun _ => false
  events :=
    [.take, .take, .take, .take, .finish 1 (.error (.runtime "second")), .take,
      .finish 0 (.error (.runtime "first")), .take, .take, .take, .take]
  follows := by simp [Event.Follows]

example : secondFailsFirst.ended = [1, 0] ∧ secondFailsFirst.state.started = [0, 1, 2, 3] ∧
    secondFailsFirst.state.cancelled = [2, 3] ∧
    secondFailsFirst.state.conclusion = some (.failed (.runtime "second")) :=
  ⟨rfl, rfl, rfl, rfl⟩

end KeyFigures.FanOut
