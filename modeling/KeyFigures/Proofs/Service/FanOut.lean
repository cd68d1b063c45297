/-
  KeyFigures/Proofs/Service/FanOut.lean
  =====================================
  **Every job once, and the results in order.**

  At every moment each job of a fan-out is in one place: it waits for its turn
  or for a slot, or it has started, and then it is running, reported or
  collected (`Placed`).  A slot is free, given away or used by a running job,
  and nobody waits while one is free (`SlotsFit`).  The call is woken as soon as
  it is decided, and not before (`Wakes`).  Together this is `Sound`; every event
  keeps it or ends the call early (`Sound.step`).
-/
import KeyFigures.Proofs.Value.Failing
import KeyFigures.Service.FanOut

namespace KeyFigures

/-! ### Slots -/

namespace Slots

/-- Those who queue, if there are slots at all. -/
def queueOf (slots : Option Slots) : List Nat := (slots.map (·.queue)).getD []

end Slots

namespace FanOut

variable {β : Type}

/-! ### Where a job is -/

namespace Turn

def beginning? : Turn β → Option Nat
  | .begin job => some job
  | _ => none

def entitled? : Turn β → Option Nat
  | .granted job => some job
  | _ => none

def reporting? : Turn β → Option Nat
  | .report job _ => some job
  | _ => none

/-- The jobs whose turn to begin has not come. -/
def beginning (turns : List (Turn β)) : List Nat := turns.filterMap beginning?

/-- The jobs that were given a slot and have not gone on yet. -/
def entitled (turns : List (Turn β)) : List Nat := turns.filterMap entitled?

/-- The jobs that have come to something that the call has yet to take in. -/
def reporting (turns : List (Turn β)) : List Nat := turns.filterMap reporting?

end Turn

/-- The call can go on: a job has failed, or every job has a result. -/
def IsDecided (f : FanOut β) : Prop := f.failure.isSome = true ∨ f.results.length = f.size

/-- Every job is in one place, but for those in hand: `coming` have not started
    yet and `going` have.  What a job comes to is `w`.  Once a job has failed,
    the results of others are lost. -/
structure Placed (w : Nat → Attempt β) (n : Nat) (coming going : List Nat) (f : FanOut β) : Prop where
  size_eq : f.size = n
  immediate_eq : ∀ job outcome, f.immediate job = some outcome → outcome = w job
  apart : (Turn.beginning f.ready ++ Slots.queueOf f.slots ++ Turn.entitled f.ready ++ coming ++
    f.started).Perm (List.range n)
  along : ∃ lost, (f.running ++ going ++ Turn.reporting f.ready ++ f.results.map (·.1) ++ lost).Perm
    f.started ∧ (f.failure = none → lost = [])
  report_eq : ∀ job outcome, .report job outcome ∈ f.ready → outcome = w job
  result_eq : ∀ job v, (job, v) ∈ f.results → w job = .ok v
  failure_eq : ∀ cause, f.failure = some cause → ∃ job ∈ f.started, w job = .error cause

/-- The slots are those of the limit: `held` are with the jobs in hand, and
    nobody queues while one is free. -/
inductive SlotsFit (limit : Option Nat) (held : Nat) (f : FanOut β) : Prop where
  | unlimited (hlimit : limit = none) (hslots : f.slots = none)
  | limited {m : Nat} {s : Slots} (hlimit : limit = some m) (hslots : f.slots = some s)
      (hunused : s.unused + f.running.length + held = m) (hgranted : s.granted = Turn.entitled f.ready)
      (hfair : s.queue ≠ [] → s.free = 0 ∨ s.granted ≠ [])

/-- The call is woken once it is decided, and its conclusion is the one there
    is. -/
structure Wakes (f : FanOut β) : Prop where
  decided : Turn.wake ∈ f.ready → f.IsDecided
  woken : f.IsDecided → Turn.wake ∈ f.ready ∨ f.conclusion.isSome = true
  concluded : ∀ c, f.conclusion = some c →
    c = .values f.ordered ∧ f.failure = none ∧ f.results.length = f.size

/-- A fan-out that has not ended early. -/
structure Sound (w : Nat → Attempt β) (n : Nat) (limit : Option Nat) (f : FanOut β) : Prop where
  placed : f.Placed w n [] []
  slots : f.SlotsFit limit 0
  wakes : f.Wakes

variable {w : Nat → Attempt β} {n : Nat} {limit : Option Nat} {coming going : List Nat} {held : Nat}
  {f : FanOut β} {job : Nat} {outcome : Attempt β}

/-- Whoever hands out a slot changes the slots first and then gives one to the
    longest waiting, if there is one. -/
theorem withSlots_cases (before : Slots → Slots) (f : FanOut β) :
    (f.slots = none ∧ (f.withSlots fun s => (before s).grant) = f) ∨
      ∃ s, f.slots = some s ∧
        (((before s).queue ≠ [] → (before s).free = 0) ∧
            (f.withSlots fun s => (before s).grant) = { f with slots := some (before s) } ∨
          ∃ free taker rest, (before s).free = free + 1 ∧ (before s).queue = taker :: rest ∧
            (f.withSlots fun s => (before s).grant) =
              { f with
                slots := some ⟨free, rest, (before s).granted ++ [taker]⟩
                ready := f.ready ++ [.granted taker] }) := by
  unfold withSlots
  cases hslots : f.slots with
  | none => exact .inl ⟨rfl, rfl⟩
  | some s =>
    refine .inr ⟨s, rfl, ?_⟩
    rcases (before s).grant_cases with ⟨taker, rest, hqueue, hfree, hgrant⟩ | ⟨hnone, hgrant⟩
    · refine .inr ⟨(before s).free - 1, taker, rest, (Nat.sub_add_cancel hfree).symm, hqueue, ?_⟩
      dsimp only
      rw [hgrant]
      rfl
    · refine .inl ⟨hnone.resolve_left, ?_⟩
      dsimp only
      rw [hgrant]
      simp [enqueue]

/-! ### Jobs stay in one place -/

/-- Rows of the same jobs, counted one by one. -/
theorem perm_of_count {xs ys zs : List Nat} (h : xs.Perm zs)
    (hcount : ∀ x, ys.count x = xs.count x) : ys.Perm zs :=
  (List.perm_iff_count.mpr hcount).trans h

namespace Placed

/-- Handing out slots moves a job from the queue to those who may go on. -/
theorem withSlots (before : Slots → Slots) (hqueue : ∀ s, (before s).queue = s.queue)
    (h : f.Placed w n coming going) :
    (f.withSlots fun s => (before s).grant).Placed w n coming going := by
  have happart := h.apart
  rcases withSlots_cases before f with
    ⟨-, heq⟩ | ⟨s, hs, ⟨-, heq⟩ | ⟨free, taker, rest, -, hnext, heq⟩⟩
  · rwa [heq]
  · rw [hs] at happart
    rw [heq]
    refine { h with apart := ?_ }
    simpa only [Slots.queueOf, Option.map_some, Option.getD_some, hqueue] using happart
  · rw [hqueue] at hnext
    rw [hs] at happart
    rw [heq]
    refine { h with apart := perm_of_count happart fun x => ?_, along := ?_, report_eq := ?_ }
    · simp [Turn.beginning, Turn.entitled, Turn.beginning?, Turn.entitled?, Slots.queueOf, hnext,
        List.filterMap_cons, List.count_cons]
      omega
    · simpa [Turn.reporting, Turn.reporting?, List.filterMap_cons] using h.along
    · intro job outcome hreport
      exact h.report_eq job outcome (by simpa using hreport)

/-- A turn that is taken puts its job in hand. -/
theorem pop {turn : Turn β} {rest : List (Turn β)} (hready : f.ready = turn :: rest)
    (h : f.Placed w n [] []) :
    ({ f with ready := rest } : FanOut β).Placed w n
      (turn.beginning?.toList ++ turn.entitled?.toList) turn.reporting?.toList := by
  have happart := h.apart
  obtain ⟨lost, halong, hlost⟩ := h.along
  rw [hready] at happart halong
  refine { h with
    apart := perm_of_count happart fun x => ?_
    along := ⟨lost, perm_of_count halong fun x => ?_, hlost⟩
    report_eq := fun job outcome hreport => ?_ }
  · cases turn <;>
      simp [Turn.beginning, Turn.entitled, Turn.beginning?, Turn.entitled?, List.filterMap_cons,
        List.count_cons] <;> omega
  · cases turn <;> simp [Turn.reporting, Turn.reporting?, List.filterMap_cons, List.count_cons]
  · exact h.report_eq job outcome (by rw [hready]; exact List.mem_cons_of_mem _ hreport)

/-- A job that has come to something is reported. -/
theorem finish (h : f.Placed w n coming (job :: going)) (houtcome : outcome = w job) :
    (f.finish job outcome).Placed w n coming going := by
  have hslots : (f.withSlots Slots.release).Placed w n coming (job :: going) :=
    h.withSlots (fun s => { s with free := s.free + 1 }) fun _ => rfl
  unfold FanOut.finish enqueue
  generalize f.withSlots Slots.release = f at hslots ⊢
  obtain ⟨lost, halong, hlost⟩ := hslots.along
  refine { hslots with apart := ?_, along := ⟨lost, perm_of_count halong fun x => ?_, hlost⟩, report_eq := ?_ }
  · simpa [Turn.beginning, Turn.entitled, Turn.beginning?, Turn.entitled?, List.filterMap_cons]
      using hslots.apart
  · simp [Turn.reporting, Turn.reporting?, List.count_cons]
    omega
  · intro job' outcome' hreport
    rcases List.mem_append.mp hreport with hreport | hreport
    · exact hslots.report_eq job' outcome' hreport
    · cases List.mem_singleton.mp hreport
      exact houtcome

/-- A job that starts with a slot, or without any limit. -/
theorem launch (h : f.Placed w n (job :: coming) going) :
    (f.launch job).Placed w n coming going := by
  obtain ⟨lost, halong, hlost⟩ := h.along
  have happart : (Turn.beginning f.ready ++ Slots.queueOf f.slots ++ Turn.entitled f.ready ++ coming ++
      (f.started ++ [job])).Perm (List.range n) := by
    refine perm_of_count h.apart fun x => ?_
    simp [List.count_cons]
    omega
  have hstarted : (job :: (f.running ++ going ++ Turn.reporting f.ready ++ f.results.map (·.1) ++
      lost)).Perm (f.started ++ [job]) :=
    (halong.cons job).trans (List.perm_append_singleton job f.started).symm
  have hfailure : ∀ cause, f.failure = some cause →
      ∃ job' ∈ f.started ++ [job], w job' = .error cause := by
    intro cause hcause
    obtain ⟨job', hmem, hw⟩ := h.failure_eq cause hcause
    exact ⟨job', List.mem_append_left _ hmem, hw⟩
  unfold FanOut.launch
  dsimp only
  split
  · rename_i outcome himmediate
    refine Placed.finish ?_ (h.immediate_eq job outcome himmediate)
    refine { h with
      apart := happart
      along := ⟨lost, perm_of_count hstarted fun x => ?_, hlost⟩
      failure_eq := hfailure }
    simp [List.count_cons]
    omega
  · refine { h with
      apart := happart
      along := ⟨lost, perm_of_count hstarted fun x => ?_, hlost⟩
      failure_eq := hfailure }
    simp [List.count_cons]
    omega

/-- A job that begins starts or queues for a slot. -/
theorem begin (h : f.Placed w n (job :: coming) going) : (f.begin job).Placed w n coming going := by
  unfold FanOut.begin
  cases hslots : f.slots with
  | none => exact h.launch
  | some s =>
    dsimp only [Slots.acquire]
    split
    · have happart := h.apart
      rw [hslots] at happart
      refine { h with apart := perm_of_count happart fun x => ?_ }
      simp [Slots.queueOf, List.count_cons]
      omega
    · have happart := h.apart
      rw [hslots] at happart
      exact Placed.launch { h with apart := happart }

/-- The turn in which the call goes on concerns no job. -/
theorem enqueue_wake (h : f.Placed w n coming going) :
    (f.enqueue [.wake]).Placed w n coming going := by
  have hreport : ∀ job outcome, Turn.report job outcome ∈ f.ready ++ [.wake] → outcome = w job :=
    fun job outcome hmem => h.report_eq job outcome (by simpa using hmem)
  refine { h with apart := ?_, along := ?_, report_eq := hreport }
  · simpa [enqueue, Turn.beginning, Turn.entitled, Turn.beginning?, Turn.entitled?,
      List.filterMap_cons] using h.apart
  · simpa [enqueue, Turn.reporting, Turn.reporting?, List.filterMap_cons] using h.along

/-- What a job came to is taken in, unless a job has failed before. -/
theorem collect (h : f.Placed w n coming (job :: going)) (houtcome : outcome = w job) :
    (f.collect job outcome).Placed w n coming going := by
  obtain ⟨lost, halong, hlost⟩ := h.along
  have hlostJob : (f.running ++ going ++ Turn.reporting f.ready ++ f.results.map (·.1) ++
      (job :: lost)).Perm f.started := by
    refine perm_of_count halong fun x => ?_
    simp [List.count_cons]
    omega
  have hstarted : job ∈ f.started := halong.subset (by simp)
  unfold FanOut.collect
  by_cases hfailure : f.failure.isSome
  · rw [if_pos hfailure]
    refine { h with along := ⟨job :: lost, hlostJob, fun hnone => ?_⟩ }
    rw [hnone] at hfailure
    cases hfailure
  rw [if_neg hfailure]
  cases outcome with
  | error cause =>
    refine enqueue_wake (f := { f with failure := some cause }) { h with
      along := ⟨job :: lost, hlostJob, nofun⟩
      failure_eq := fun cause' hcause => ⟨job, hstarted, ?_⟩ }
    rw [← Option.some.inj hcause, houtcome]
  | ok v =>
    have hresult : ({ f with results := f.results ++ [(job, v)] } : FanOut β).Placed w n coming going := by
      refine { h with
        along := ⟨lost, perm_of_count halong fun x => ?_, hlost⟩
        result_eq := fun job' v' hmem => ?_ }
      · simp [List.count_cons]
        omega
      · rcases List.mem_append.mp hmem with hmem | hmem
        · exact h.result_eq job' v' hmem
        · cases List.mem_singleton.mp hmem
          exact houtcome.symm
    dsimp only
    split
    · exact hresult.enqueue_wake
    · exact hresult

/-- While a job is in hand, not every job has a result. -/
theorem length_results_lt (h : f.Placed w n [] [job]) : f.results.length < f.size := by
  rw [h.size_eq]
  obtain ⟨lost, halong, -⟩ := h.along
  have hstarted := halong.length_eq
  have hall := h.apart.length_eq
  simp at hstarted hall
  omega

end Placed

/-! ### Slots are used and given back -/

namespace SlotsFit

/-- Only the slots, the jobs that run and those that may go on matter. -/
theorem congr {g : FanOut β} (h : f.SlotsFit limit held) (hslots : g.slots = f.slots)
    (hready : Turn.entitled g.ready = Turn.entitled f.ready) (hrunning : g.running = f.running) :
    g.SlotsFit limit held := by
  cases h with
  | unlimited hlimit hs => exact .unlimited hlimit (hslots.trans hs)
  | limited hlimit hs hunused hgranted hfair =>
    rw [← hready] at hgranted
    rw [← hrunning] at hunused
    exact .limited hlimit (hslots.trans hs) hunused hgranted hfair

/-- Slots fit again once one was handed out. -/
theorem withSlots (before : Slots → Slots)
    (h : (limit = none ∧ f.slots = none) ∨
      ∃ m s, limit = some m ∧ f.slots = some s ∧
        (before s).unused + f.running.length + held = m ∧
        (before s).granted = Turn.entitled f.ready) :
    (f.withSlots fun s => (before s).grant).SlotsFit limit held := by
  rcases withSlots_cases before f with
    ⟨hs, heq⟩ | ⟨s, hs, ⟨hfree, heq⟩ | ⟨free, taker, rest, hfree, hnext, heq⟩⟩
  · rcases h with ⟨hlimit, -⟩ | ⟨m, s, -, hs', -⟩
    · rw [heq]
      exact .unlimited hlimit hs
    · rw [hs] at hs'
      cases hs'
  · rcases h with ⟨-, hs'⟩ | ⟨m, s', hlimit, hs', hunused, hgranted⟩
    · rw [hs] at hs'
      cases hs'
    · rw [hs] at hs'
      cases hs'
      rw [heq]
      exact .limited hlimit rfl hunused hgranted fun hne => .inl (hfree hne)
  · rcases h with ⟨-, hs'⟩ | ⟨m, s', hlimit, hs', hunused, hgranted⟩
    · rw [hs] at hs'
      cases hs'
    · rw [hs] at hs'
      cases hs'
      rw [heq]
      refine .limited hlimit rfl ?_ ?_ fun _ => .inr (by simp)
      · unfold Slots.unused at hunused ⊢
        simp
        omega
      · simp [hgranted, Turn.entitled, Turn.entitled?]

theorem pop {turn : Turn β} {rest : List (Turn β)} (hready : f.ready = turn :: rest)
    (hturn : turn.entitled? = none) (h : f.SlotsFit limit held) :
    ({ f with ready := rest } : FanOut β).SlotsFit limit held := by
  refine h.congr rfl ?_ rfl
  rw [hready]
  simp [Turn.entitled, hturn]

/-- A job goes on with the slot that was given away first. -/
theorem proceed {rest : List (Turn β)} (hready : f.ready = .granted job :: rest)
    (h : f.SlotsFit limit held) :
    (({ f with ready := rest } : FanOut β).withSlots fun slots => slots.proceed job).SlotsFit limit
      (held + 1) := by
  refine withSlots (fun s => { s with granted := s.granted.erase job }) ?_
  cases h with
  | unlimited hlimit hs => exact .inl ⟨hlimit, hs⟩
  | @limited m s hlimit hs hunused hgranted hfair =>
    have hfirst : s.granted = job :: Turn.entitled rest := by
      rw [hgranted, hready]
      rfl
    refine .inr ⟨m, s, hlimit, hs, ?_, ?_⟩
    · unfold Slots.unused at hunused ⊢
      rw [hfirst, List.length_cons] at hunused
      dsimp only
      rw [hfirst, List.erase_cons_head]
      omega
    · dsimp only
      rw [hfirst, List.erase_cons_head]

/-- A job that has come to something gives its slot back. -/
theorem finish (h : f.SlotsFit limit (held + 1)) : (f.finish job outcome).SlotsFit limit held := by
  have hback : (f.withSlots Slots.release).SlotsFit limit held := by
    refine withSlots (fun s => { s with free := s.free + 1 }) ?_
    cases h with
    | unlimited hlimit hs => exact .inl ⟨hlimit, hs⟩
    | limited hlimit hs hunused hgranted hfair =>
      refine .inr ⟨_, _, hlimit, hs, ?_, hgranted⟩
      unfold Slots.unused at hunused ⊢
      dsimp only
      omega
  unfold FanOut.finish enqueue
  exact hback.congr rfl (by simp [Turn.entitled, Turn.entitled?, List.filterMap_cons]) rfl

theorem launch (h : f.SlotsFit limit (held + 1)) : (f.launch job).SlotsFit limit held := by
  unfold FanOut.launch
  dsimp only
  split
  · exact SlotsFit.finish (h.congr rfl rfl rfl)
  · cases h with
    | unlimited hlimit hs => exact .unlimited hlimit hs
    | limited hlimit hs hunused hgranted hfair =>
      refine .limited hlimit hs ?_ hgranted hfair
      rw [List.length_append, List.length_singleton]
      omega

theorem begin (h : f.SlotsFit limit held) : (f.begin job).SlotsFit limit held := by
  unfold FanOut.begin
  cases h with
  | unlimited hlimit hs =>
    rw [hs]
    exact SlotsFit.launch (.unlimited hlimit hs)
  | @limited m s hlimit hs hunused hgranted hfair =>
    rw [hs]
    dsimp only [Slots.acquire]
    split
    · rename_i hbusy
      refine .limited hlimit rfl hunused hgranted fun _ => ?_
      -- Whoever queues finds no slot free, or others that come first.
      simp only [Slots.isBusy, Bool.or_eq_true, beq_iff_eq, Bool.not_eq_true',
        List.isEmpty_eq_false_iff] at hbusy
      rcases hbusy with (hfree | hqueue) | hsome
      · exact .inl hfree
      · exact hfair hqueue
      · exact .inr hsome
    · rename_i hidle
      simp only [Slots.isBusy, Bool.or_eq_true, beq_iff_eq, Bool.not_eq_true',
        List.isEmpty_eq_false_iff, not_or, not_not] at hidle
      refine SlotsFit.launch (.limited hlimit rfl ?_ hgranted fun hne => absurd hidle.1.2 hne)
      unfold Slots.unused at hunused ⊢
      dsimp only
      omega

/-- What a job came to has nothing to do with the slots. -/
theorem collect (h : f.SlotsFit limit held) : (f.collect job outcome).SlotsFit limit held := by
  have hwake : Turn.entitled (f.ready ++ [.wake]) = Turn.entitled f.ready := by
    simp [Turn.entitled, Turn.entitled?, List.filterMap_cons]
  unfold FanOut.collect
  split
  · exact h
  · cases outcome with
    | error cause => exact h.congr rfl hwake rfl
    | ok v =>
      dsimp only
      split
      · exact h.congr rfl hwake rfl
      · exact h.congr rfl rfl rfl

end SlotsFit

/-! ### The call is woken in time -/

namespace Wakes

/-- Nothing that leaves the results alone and wakes nobody matters. -/
theorem congr {g : FanOut β} (h : f.Wakes) (hready : Turn.wake ∈ g.ready ↔ Turn.wake ∈ f.ready)
    (hsize : g.size = f.size) (hresults : g.results = f.results) (hfailure : g.failure = f.failure)
    (hconclusion : g.conclusion = f.conclusion) : g.Wakes := by
  have hdecided : g.IsDecided ↔ f.IsDecided := by
    unfold IsDecided
    rw [hsize, hresults, hfailure]
  have hordered : g.ordered = f.ordered := by
    unfold ordered
    rw [hsize, hresults]
  refine ⟨fun hwake => hdecided.mpr (h.decided (hready.mp hwake)), fun hdec => ?_, fun c hc => ?_⟩
  · rw [hready, hconclusion]
    exact h.woken (hdecided.mp hdec)
  · rw [hordered, hfailure, hresults, hsize]
    exact h.concluded c (hconclusion.symm.trans hc)

theorem pop {turn : Turn β} {rest : List (Turn β)} (hready : f.ready = turn :: rest)
    (hturn : Turn.wake ≠ turn) (h : f.Wakes) : ({ f with ready := rest } : FanOut β).Wakes := by
  refine h.congr ?_ rfl rfl rfl rfl
  rw [hready]
  simp [hturn]

theorem withSlots (before : Slots → Slots) (h : f.Wakes) :
    (f.withSlots fun s => (before s).grant).Wakes := by
  rcases withSlots_cases before f with ⟨-, heq⟩ | ⟨s, -, ⟨-, heq⟩ | ⟨free, taker, rest, -, -, heq⟩⟩
  · rwa [heq]
  · rw [heq]
    exact h.congr Iff.rfl rfl rfl rfl rfl
  · rw [heq]
    exact h.congr (by simp) rfl rfl rfl rfl

theorem finish (h : f.Wakes) : (f.finish job outcome).Wakes := by
  have hback : (f.withSlots Slots.release).Wakes :=
    h.withSlots (fun s => { s with free := s.free + 1 })
  unfold FanOut.finish enqueue
  exact hback.congr (by simp) rfl rfl rfl rfl

theorem launch (h : f.Wakes) : (f.launch job).Wakes := by
  unfold FanOut.launch
  dsimp only
  split
  · exact Wakes.finish (h.congr Iff.rfl rfl rfl rfl rfl)
  · exact h.congr Iff.rfl rfl rfl rfl rfl

theorem begin (h : f.Wakes) : (f.begin job).Wakes := by
  unfold FanOut.begin
  split
  · exact h.launch
  · dsimp only
    split
    · exact Wakes.launch (h.congr Iff.rfl rfl rfl rfl rfl)
    · exact h.congr Iff.rfl rfl rfl rfl rfl

/-- What a job came to wakes the call if it decides it. -/
theorem collect (h : f.Wakes) (hplaced : f.Placed w n [] [job]) : (f.collect job outcome).Wakes := by
  have hlt := hplaced.length_results_lt
  have hopen : ∀ c, f.conclusion ≠ some c := by
    intro c hc
    have := (h.concluded c hc).2.2
    omega
  unfold FanOut.collect
  by_cases hfailure : f.failure.isSome
  · rwa [if_pos hfailure]
  rw [if_neg hfailure]
  have hundecided : ¬f.IsDecided := by
    rintro (hsome | hall)
    · exact hfailure hsome
    · omega
  cases outcome with
  | error cause =>
    exact ⟨fun _ => .inl rfl, fun _ => .inl (by simp [enqueue]), fun c hc => absurd hc (hopen c)⟩
  | ok v =>
    dsimp only
    split
    · rename_i hall
      exact ⟨fun _ => .inr hall, fun _ => .inl (by simp [enqueue]), fun c hc => absurd hc (hopen c)⟩
    · rename_i hsome
      refine ⟨fun hwake => absurd (h.decided hwake) hundecided, ?_, fun c hc => absurd hc (hopen c)⟩
      rintro (hfailed | hall)
      · exact absurd hfailed hfailure
      · exact absurd hall hsome

end Wakes

/-! ### The start -/

section Start

variable {size : Nat} {immediate : Nat → Option (Attempt β)}

theorem queueOf_start : Slots.queueOf (start size limit immediate).slots = [] := by
  cases limit <;> rfl

theorem beginning_start : Turn.beginning (start size limit immediate).ready = List.range size := by
  unfold start Turn.beginning
  dsimp only
  split
  · rename_i hzero
    rw [hzero]
    rfl
  · rw [List.filterMap_map]
    exact List.filterMap_some

theorem of_mem_start {turn : Turn β} (h : turn ∈ (start size limit immediate).ready) :
    turn.entitled? = none ∧ turn.reporting? = none := by
  unfold start at h
  dsimp only at h
  split at h
  · cases List.mem_singleton.mp h
    exact ⟨rfl, rfl⟩
  · obtain ⟨job, -, rfl⟩ := List.mem_map.mp h
    exact ⟨rfl, rfl⟩

theorem wake_mem_start : Turn.wake ∈ (start size limit immediate).ready ↔ size = 0 := by
  unfold start
  dsimp only
  split <;> simp_all

end Start

/-! ### What one event does -/

theorem conclude_of_failure {cause : Failure} (h : f.failure = some cause) :
    f.conclude = f.stop (.failed cause) := by
  unfold conclude
  rw [h]

theorem conclude_of_none (h : f.failure = none) :
    f.conclude = { f with conclusion := some (.values f.ordered) } := by
  unfold conclude
  rw [h]

/-- A job that ends comes to what it comes to. -/
def Event.Follows (w : Nat → Attempt β) : Event β → Prop
  | .finish job outcome => outcome = w job
  | .take | .cancel => True

namespace Sound

variable {size : Nat} {immediate : Nat → Option (Attempt β)}

/-- Without a failure the call ends with the results. -/
theorem conclude {rest : List (Turn β)} (hready : f.ready = .wake :: rest)
    (hfailure : f.failure = none) (h : f.Sound w n limit) :
    ({ f with ready := rest, conclusion := some (.values f.ordered) } : FanOut β).Sound w n limit := by
  have hall : f.results.length = f.size := by
    rcases h.wakes.decided (by rw [hready]; exact List.mem_cons_self) with hsome | hall
    · rw [hfailure] at hsome
      cases hsome
    · exact hall
  refine ⟨?_, ?_, fun _ => .inr hall, fun _ => .inr rfl, fun c hc => ?_⟩
  · exact { h.placed.pop hready with }
  · exact (h.slots.pop hready rfl).congr rfl rfl rfl
  · exact ⟨(Option.some.inj hc).symm, hfailure, hall⟩

/-- A turn keeps the fan-out sound, unless it ends the call for a failure. -/
theorem take (h : f.Sound w n limit) :
    f.take.Sound w n limit ∨ ∃ cause, f.failure = some cause ∧ f.take = f.stop (.failed cause) := by
  cases hready : f.ready with
  | nil =>
    left
    unfold FanOut.take
    rwa [hready]
  | cons turn rest =>
    have htake : f.take = ({ f with ready := rest } : FanOut β).perform turn := by
      unfold FanOut.take
      rw [hready]
    have hplaced := h.placed.pop hready
    rw [htake]
    cases turn with
    | begin job =>
      exact .inl ⟨hplaced.begin, (h.slots.pop hready rfl).begin, (h.wakes.pop hready nofun).begin⟩
    | granted job =>
      have hgiven := hplaced.withSlots
        (fun s => { s with granted := s.granted.erase job }) fun _ => rfl
      have hwakes := (h.wakes.pop hready nofun).withSlots
        (fun s => { s with granted := s.granted.erase job })
      exact .inl ⟨hgiven.launch, (h.slots.proceed hready).launch, hwakes.launch⟩
    | report job outcome =>
      have houtcome := h.placed.report_eq job outcome (by rw [hready]; exact List.mem_cons_self)
      exact .inl ⟨hplaced.collect houtcome, (h.slots.pop hready rfl).collect,
        (h.wakes.pop hready nofun).collect hplaced⟩
    | wake =>
      rcases Option.eq_none_or_eq_some f.failure with hfailure | ⟨cause, hfailure⟩
      · have hconclude : ({ f with ready := rest } : FanOut β).perform .wake =
            { f with ready := rest, conclusion := some (.values f.ordered) } :=
          conclude_of_none hfailure
        rw [hconclude]
        exact .inl (h.conclude hready hfailure)
      · exact .inr ⟨cause, hfailure, conclude_of_failure hfailure⟩

/-- So does the end of a running job. -/
theorem finish (h : f.Sound w n limit) (hrunning : job ∈ f.running) (houtcome : outcome = w job) :
    (f.step (.finish job outcome)).Sound w n limit := by
  unfold FanOut.step
  dsimp only
  rw [if_pos hrunning]
  have hlength := List.length_erase_of_mem hrunning
  have hpos := List.length_pos_of_mem hrunning
  obtain ⟨lost, halong, hlost⟩ := h.placed.along
  have hplaced : ({ f with running := f.running.erase job } : FanOut β).Placed w n [] [job] := by
    refine { h.placed with along := ⟨lost, perm_of_count halong fun x => ?_, hlost⟩ }
    have := (List.perm_cons_erase hrunning).count_eq x
    simp [List.count_cons] at this ⊢
    omega
  refine ⟨hplaced.finish houtcome, SlotsFit.finish ?_,
    Wakes.finish (h.wakes.congr Iff.rfl rfl rfl rfl rfl)⟩
  cases h.slots with
  | unlimited hlimit hs => exact .unlimited hlimit hs
  | limited hlimit hs hunused hgranted hfair =>
    refine .limited hlimit hs ?_ hgranted hfair
    dsimp only
    omega

/-- **An event keeps the fan-out sound or ends it early**, for a failure or by
    a cancellation before its end. -/
theorem step (h : f.Sound w n limit) {e : Event β} (he : e.Follows w) :
    (f.step e).Sound w n limit ∨ ∃ c, f.step e = f.stop c ∧
      ((∃ cause, c = .failed cause ∧ f.failure = some cause) ∨
        c = .cancelled ∧ e = .cancel ∧ f.conclusion = none) := by
  cases e with
  | take =>
    rcases h.take with hsound | ⟨cause, hfailure, hstop⟩
    · exact .inl hsound
    · exact .inr ⟨_, hstop, .inl ⟨cause, rfl, hfailure⟩⟩
  | finish job outcome =>
    by_cases hrunning : job ∈ f.running
    · exact .inl (h.finish hrunning he)
    · have hstay : f.step (.finish job outcome) = f := if_neg hrunning
      rw [hstay]
      exact .inl h
  | cancel =>
    unfold FanOut.step
    cases hconclusion : f.conclusion with
    | some c => exact .inl h
    | none => exact .inr ⟨_, rfl, .inr ⟨rfl, rfl, rfl⟩⟩

/-- A fan-out starts sound. -/
theorem start (himmediate : ∀ job outcome, immediate job = some outcome → outcome = w job) :
    (FanOut.start size limit immediate).Sound w size limit := by
  have hentitled : Turn.entitled (FanOut.start size limit immediate).ready = [] :=
    List.filterMap_eq_nil_iff.mpr fun _ hturn => (of_mem_start hturn).1
  have hreporting : Turn.reporting (FanOut.start size limit immediate).ready = [] :=
    List.filterMap_eq_nil_iff.mpr fun _ hturn => (of_mem_start hturn).2
  refine ⟨⟨rfl, himmediate, ?_, ⟨[], ?_, fun _ => rfl⟩, fun job outcome hreport => ?_,
    fun job v hresult => absurd hresult List.not_mem_nil, fun cause hfailure => ?_⟩, ?_, ?_⟩
  · rw [beginning_start, queueOf_start, hentitled]
    simp [FanOut.start]
  · rw [hreporting]
    simp [FanOut.start]
  · cases (of_mem_start hreport).2
  · cases hfailure
  · cases hlimit : limit with
    | none => exact .unlimited rfl rfl
    | some n =>
      rw [hlimit] at hentitled
      exact .limited rfl rfl (by simp [FanOut.start, Slots.unused]) hentitled.symm
        fun hne => absurd rfl hne
  · refine ⟨fun h => .inr (wake_mem_start.mp h).symm, fun h => .inl (wake_mem_start.mpr ?_),
      fun c hconclusion => by cases hconclusion⟩
    rcases h with h | h
    · cases h
    · exact h.symm

end Sound

end FanOut

end KeyFigures
