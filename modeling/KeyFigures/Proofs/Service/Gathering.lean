/-
  KeyFigures/Proofs/Service/Gathering.lean
  ========================================
  **The results in the order of the items.**

  Every event that does anything brings a fan-out closer to its end
  (`left_step_lt`), so only so many can (`length_le_left`), and a call without a
  conclusion can go on (`Sound.canGoOn`).  A call whose jobs all come to something
  therefore ends, and when nothing is left to do it has started every job once
  and ends with what the jobs came to, in the order of the items, whatever the
  order in which they ended (`Sound.values_of_idle`).
-/
import KeyFigures.Proofs.Service.FanOut

namespace KeyFigures.FanOut

variable {β : Type} {w : Nat → Attempt β} {n : Nat} {limit : Option Nat} {f : FanOut β} {job : Nat}
  {outcome : Attempt β}

/-! ### Calls come to an end -/

/-- How far a turn is from the end of its job. -/
def Turn.weight : Turn β → Nat
  | .begin _ => 6
  | .granted _ => 4
  | .report _ _ => 2
  | .wake => 1

/-- How far a fan-out is from its end. -/
def left (f : FanOut β) : Nat :=
  (f.ready.map Turn.weight).sum + 5 * (Slots.queueOf f.slots).length + 3 * f.running.length

theorem left_withSlots_le (before : Slots → Slots) (hqueue : ∀ s, (before s).queue = s.queue)
    (f : FanOut β) : (f.withSlots fun s => (before s).grant).left ≤ f.left := by
  rcases withSlots_cases before f with
    ⟨-, heq⟩ | ⟨s, hs, ⟨-, heq⟩ | ⟨free, taker, rest, -, hnext, heq⟩⟩
  · rw [heq]
  · rw [heq]
    simp [left, hs, Slots.queueOf, hqueue]
  · rw [hqueue] at hnext
    rw [heq]
    simp [left, hs, Slots.queueOf, hnext, Turn.weight]
    omega

theorem left_finish_le (f : FanOut β) (job : Nat) (outcome : Attempt β) :
    (f.finish job outcome).left ≤ f.left + 2 := by
  have hback : (f.withSlots Slots.release).left ≤ f.left :=
    left_withSlots_le (fun s => { s with free := s.free + 1 }) (fun _ => rfl) f
  unfold FanOut.finish
  generalize f.withSlots Slots.release = g at hback ⊢
  unfold left at hback ⊢
  simp only [enqueue, List.map_append, List.sum_append, List.map_cons, List.map_nil, List.sum_cons,
    List.sum_nil, Turn.weight]
  omega

theorem left_launch_le (f : FanOut β) (job : Nat) : (f.launch job).left ≤ f.left + 3 := by
  unfold FanOut.launch
  dsimp only
  split
  · rename_i outcome _
    exact (left_finish_le _ job outcome).trans (Nat.add_le_add_left (by decide) _)
  · simp [left]
    omega

theorem left_begin_le (f : FanOut β) (job : Nat) : (f.begin job).left ≤ f.left + 5 := by
  unfold FanOut.begin
  split
  · exact (left_launch_le f job).trans (Nat.add_le_add_left (by decide) _)
  · rename_i s hs
    dsimp only [Slots.acquire]
    split
    · simp [left, hs, Slots.queueOf]
      omega
    · refine (left_launch_le _ job).trans ?_
      simp [left, hs, Slots.queueOf]

theorem left_collect_le (f : FanOut β) (job : Nat) (outcome : Attempt β) :
    (f.collect job outcome).left ≤ f.left + 1 := by
  unfold FanOut.collect
  split
  · omega
  · cases outcome with
    | error cause =>
      simp [left, enqueue, Turn.weight]
      omega
    | ok v =>
      dsimp only
      split
      · simp [left, enqueue, Turn.weight]
        omega
      · simp [left]

theorem left_stop_le (f : FanOut β) (c : Conclusion β) : (f.stop c).left ≤ f.left := by
  simp [left, stop]
  omega

theorem left_conclude_le (f : FanOut β) : f.conclude.left ≤ f.left := by
  unfold FanOut.conclude
  split
  · exact left_stop_le f _
  · rfl

/-- A turn brings the call closer to its end. -/
theorem left_take_lt (h : f.ready ≠ []) : f.take.left < f.left := by
  unfold FanOut.take
  cases hready : f.ready with
  | nil => exact absurd hready h
  | cons turn rest =>
    have hweight : f.left = ({ f with ready := rest } : FanOut β).left + turn.weight := by
      simp [left, hready]
      omega
    rw [hweight]
    dsimp only
    cases turn with
    | begin job => exact Nat.lt_of_le_of_lt (left_begin_le _ job) (by simp [Turn.weight])
    | granted job =>
      have hgiven : (({ f with ready := rest } : FanOut β).withSlots
          fun slots => slots.proceed job).left ≤ _ :=
        left_withSlots_le (fun s => { s with granted := s.granted.erase job })
          (fun _ => rfl) _
      refine Nat.lt_of_le_of_lt (left_launch_le _ job) ?_
      simp only [Turn.weight]
      omega
    | report job outcome =>
      exact Nat.lt_of_le_of_lt (left_collect_le _ job outcome) (by simp [Turn.weight])
    | wake => exact Nat.lt_of_le_of_lt (left_conclude_le _) (by simp [Turn.weight])

/-- So does the end of a job. -/
theorem left_finish_lt (h : job ∈ f.running) (outcome : Attempt β) :
    (f.step (.finish job outcome)).left < f.left := by
  have hlength := List.length_erase_of_mem h
  have hpos := List.length_pos_of_mem h
  unfold FanOut.step
  dsimp only
  rw [if_pos h]
  refine Nat.lt_of_le_of_lt (left_finish_le _ job outcome) ?_
  simp only [left]
  omega

namespace Sound

/-- A call without a conclusion can go on. -/
theorem canGoOn (h : f.Sound w n limit) (hlimit : limit ≠ some 0) (hopen : f.conclusion = none) :
    f.ready ≠ [] ∨ f.running ≠ [] := by
  by_contra hidle
  simp only [not_or, not_not] at hidle
  obtain ⟨hready, hrunning⟩ := hidle
  have hundecided : ¬f.IsDecided := by
    intro hdecided
    rcases h.wakes.woken hdecided with hwake | hconclusion
    · rw [hready] at hwake
      cases hwake
    · rw [hopen] at hconclusion
      cases hconclusion
  have hqueue : Slots.queueOf f.slots = [] := by
    cases h.slots with
    | unlimited _ hs =>
      rw [hs]
      rfl
    | @limited m s hn hs hunused hgranted hfair =>
      rw [hready] at hgranted
      by_contra hne
      rw [hs] at hne
      rcases hfair hne with hfree | hsome
      · rw [Slots.unused, hfree, hgranted, hrunning] at hunused
        exact hlimit (hn.trans (congrArg some hunused.symm))
      · exact hsome hgranted
  obtain ⟨lost, halong, hlost⟩ := h.placed.along
  have hfailure : f.failure = none := by
    by_contra hsome
    exact hundecided (.inl (Option.isSome_iff_ne_none.mpr hsome))
  have happart := h.placed.apart.length_eq
  have hall := halong.length_eq
  rw [hready, hqueue] at happart
  rw [hready, hrunning, hlost hfailure] at hall
  simp [Turn.beginning, Turn.entitled, Turn.reporting] at happart hall
  exact hundecided (.inr ((hall.trans happart).trans h.placed.size_eq.symm))

end Sound

/-! ### Calls whose jobs all come to something -/

/-- An event in which a job, if it ends, comes to what it comes to, and nobody
    cancels the call. -/
def Event.Completes (w : Nat → Attempt β) : Event β → Prop
  | .take => True
  | .finish job outcome => outcome = w job
  | .cancel => False

/-- Something happens: there is a turn to take, or the job is running. -/
def Event.Acts (f : FanOut β) : Event β → Prop
  | .take => f.ready ≠ []
  | .finish job _ => job ∈ f.running
  | .cancel => False

/-- Each of the events does something when it happens. -/
def ActsAll : FanOut β → List (Event β) → Prop
  | _, [] => True
  | f, e :: events => e.Acts f ∧ ActsAll (f.step e) events

/-- The call has nothing left to do. -/
def IsIdle (f : FanOut β) : Prop := f.ready = [] ∧ f.running = []

theorem left_step_lt {e : Event β} (h : e.Acts f) : (f.step e).left < f.left := by
  cases e with
  | take => exact left_take_lt h
  | finish job outcome => exact left_finish_lt h outcome
  | cancel => exact h.elim

/-- Only so many events do something. -/
theorem length_le_left {events : List (Event β)} (h : f.ActsAll events) :
    events.length ≤ f.left := by
  induction events generalizing f with
  | nil => exact Nat.zero_le _
  | cons e events ih =>
    have hlt := left_step_lt h.1
    have hrest := ih h.2
    rw [List.length_cons]
    omega

theorem left_start_le (size : Nat) (limit : Option Nat) (immediate : Nat → Option (Attempt β)) :
    (start size limit immediate).left ≤ 6 * size + 1 := by
  unfold left
  rw [queueOf_start]
  unfold start
  dsimp only
  split
  · simp [Turn.weight]
  · simp [Function.comp_def, Turn.weight]
    omega

namespace Sound

/-- Where every job comes to something, none has failed. -/
theorem failure_eq_none (h : f.Sound w n limit) (hw : ∀ job < n, ∃ v, w job = .ok v) :
    f.failure = none := by
  rcases Option.eq_none_or_eq_some f.failure with hnone | ⟨cause, hsome⟩
  · exact hnone
  · obtain ⟨job, hstarted, herror⟩ := h.placed.failure_eq cause hsome
    have hjob : job ∈ List.range n := h.placed.apart.subset (by simp [hstarted])
    obtain ⟨v, hv⟩ := hw job (List.mem_range.mp hjob)
    rw [hv] at herror
    cases herror

/-- **A run in which every job comes to something stays sound.** -/
theorem run (h : f.Sound w n limit) (hw : ∀ job < n, ∃ v, w job = .ok v)
    {events : List (Event β)} (hevents : ∀ e ∈ events, e.Completes w) :
    (f.run events).Sound w n limit := by
  induction events generalizing f with
  | nil => exact h
  | cons e events ih =>
    obtain ⟨he, hevents⟩ := List.forall_mem_cons.mp hevents
    have hfollows : e.Follows w := by
      cases e with
      | take => trivial
      | finish job outcome => exact he
      | cancel => exact he.elim
    refine ih ?_ hevents
    rcases h.step hfollows with hsound | ⟨c, -, ⟨cause, -, hfailure⟩ | ⟨-, rfl, -⟩⟩
    · exact hsound
    · rw [h.failure_eq_none hw] at hfailure
      cases hfailure
    · exact he.elim

/-- At every moment each job has started at most once. -/
theorem started_subperm (h : f.Sound w n limit) : f.started.Subperm (List.range n) :=
  (List.sublist_append_right _ _).subperm.trans h.placed.apart.subperm

/-- Where every job has a result, every job has started, and none has another
    place. -/
theorem perm_of_complete (h : f.Sound w n limit) (hall : f.results.length = n) :
    (f.results.map (·.1)).Perm (List.range n) ∧ f.started.Perm (List.range n) := by
  obtain ⟨lost, halong, -⟩ := h.placed.along
  have hresults : (f.results.map (·.1)).Subperm f.started :=
    ((List.sublist_append_right _ _).trans (List.sublist_append_left _ lost)).subperm.trans
      halong.subperm
  have hstarted := h.started_subperm
  have hlength := hresults.length_le
  rw [List.length_map, hall] at hlength
  exact ⟨(hresults.trans hstarted).perm_of_length_le (by simp [hall]),
    hstarted.perm_of_length_le (by simpa using hlength)⟩

/-- The results, put in order, are what the jobs came to. -/
theorem mapM_eq_ordered (h : f.Sound w n limit) (hall : f.results.length = n) :
    (List.range n).mapM w = .ok f.ordered := by
  have hplace : ∀ job ∈ List.range n,
      ∃ v, (f.results.find? (·.1 == job)).map (·.2) = some v ∧ w job = .ok v := by
    intro job hjob
    have hmem := (h.perm_of_complete hall).1.mem_iff.mpr hjob
    obtain ⟨⟨job', v⟩, hresult, rfl⟩ := List.mem_map.mp hmem
    have hsome : (f.results.find? (·.1 == job')).isSome :=
      List.find?_isSome.mpr ⟨(job', v), hresult, beq_self_eq_true job'⟩
    obtain ⟨⟨found, v'⟩, hfind⟩ := Option.isSome_iff_exists.mp hsome
    obtain rfl : found = job' := beq_iff_eq.mp (List.find?_some hfind :)
    refine ⟨v', ?_, h.placed.result_eq found v' (List.mem_of_find?_eq_some hfind)⟩
    rw [hfind]
    rfl
  unfold ordered
  rw [h.placed.size_eq]
  generalize List.range n = jobs at hplace ⊢
  induction jobs with
  | nil => rfl
  | cons job jobs ih =>
    obtain ⟨⟨v, hfind, hv⟩, hrest⟩ := List.forall_mem_cons.mp hplace
    rw [List.mapM_cons, hv, ih hrest, List.filterMap_cons, hfind]
    rfl

/-- **A call with nothing left to do has ended with all results in order**, and
    has started every job once. -/
theorem values_of_idle (h : f.Sound w n limit) (hlimit : limit ≠ some 0) (hidle : f.IsIdle) :
    ∃ vs, f.conclusion = some (.values vs) ∧ (List.range n).mapM w = .ok vs ∧
      f.started.Perm (List.range n) := by
  cases hconclusion : f.conclusion with
  | none =>
    rcases h.canGoOn hlimit hconclusion with hready | hrunning
    · exact absurd hidle.1 hready
    · exact absurd hidle.2 hrunning
  | some c =>
    obtain ⟨rfl, -, hall⟩ := h.wakes.concluded c hconclusion
    rw [h.placed.size_eq] at hall
    exact ⟨f.ordered, rfl, h.mapM_eq_ordered hall, (h.perm_of_complete hall).2⟩

end Sound

end KeyFigures.FanOut
