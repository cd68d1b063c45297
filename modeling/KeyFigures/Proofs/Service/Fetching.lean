/-
  KeyFigures/Proofs/Service/Fetching.lean
  =======================================
  **A bounded number of fetches, and one for each flight.**

  A flight starts its fetch when it goes on with a slot (`Service.startsFetch?`),
  and from then on it is among the running ones until its ledger was used.  The
  slots that are free, given or used by a running fetch make the limit, so there
  are never more running fetches than slots (`Service.bounded_fetching`).

  Before its fetch a flight is pending: it has yet to take off, it queues, or it
  was given a slot.  Nobody becomes pending again, and numbers are not used
  twice; so a flight starts one fetch (`Service.FetchesOnce`).
-/
import KeyFigures.Proofs.Service.Moves
import KeyFigures.Proofs.Service.Tower

namespace KeyFigures

open scoped List

namespace Turn

/-- The flight that goes on by a turn and has yet to fetch. -/
def ahead? : Turn → Option Nat
  | .takeOff n | .granted n => some n
  | _ => none

/-- The flight that goes on by a turn with its ledger. -/
def fetched? : Turn → Option Nat
  | .fetched n => some n
  | _ => none

end Turn

namespace Tower

/-- The flights that have yet to fetch. -/
def pending (t : Tower) : List Nat := t.turns.filterMap Turn.ahead? ++ t.slots.queue

/-- The flights whose fetch was started and has not been used yet. -/
def running (t : Tower) : List Nat := t.fetching ++ t.turns.filterMap Turn.fetched?

/-- The flight that starts to fetch in a turn. -/
def starts? (t : Tower) : Turn → Option Nat
  | .takeOff n => if t.slots.isBusy then none else some n
  | .granted n => some n
  | _ => none

/-- Whether a fetch comes to its end in a turn: at once, if no fetch is held. -/
def ends (t : Tower) : Turn → Bool
  | .fetched _ => true
  | turn => (t.starts? turn).isSome && !t.hold

variable {t t' : Tower} {n : Nat} {turn : Turn}

/-! ### Where a flight is before and after its fetch starts -/

theorem ahead?_sublist (turns : List Turn) :
    (turns.filterMap Turn.ahead?).Sublist (turns.filterMap Turn.flight?) := by
  induction turns with
  | nil => exact .refl _
  | cons turn turns ih =>
    cases turn with
    | takeOff n | granted n => exact ih.cons_cons n
    | fetched n => exact ih.cons n
    | _ => exact ih

/-- Flights that have yet to fetch are in different places. -/
theorem Orderly.pending_nodup {limit : Nat} (h : t.Orderly limit []) :
    t.pending.Nodup ∧ t.pending ⊆ t.flights := by
  have hsub : t.pending.Sublist t.places :=
    ((ahead?_sublist t.turns).append_right _).trans (List.sublist_append_left _ _)
  have hperm : t.places.Perm t.flights := h.places
  exact ⟨(hperm.nodup_iff.mpr h.numbers).sublist hsub, fun n hn => hperm.subset (hsub.subset hn)⟩

/-- The slots that are free or given and the running fetches make the limit. -/
theorem Orderly.slots_running {limit : Nat} (h : t.Orderly limit []) :
    t.slots.free + t.slots.granted.length + t.running.length = limit := by
  have hcount : (t.turns.filterMap Turn.fetched?).length = t.turns.countP Turn.isFetched := by
    rw [List.length_filterMap_eq_countP]
    congr 1
    funext turn
    cases turn <;> rfl
  have hslots := h.slots
  unfold running
  rw [List.length_append, hcount]
  simp only [List.length_nil] at hslots
  omega

/-- A fetch is started with a slot that was not used by a running one. -/
theorem Orderly.running_lt {limit : Nat} (h : t.Orderly limit [])
    (hturn : turn ∈ t.turns) (hstarts : t.starts? turn = some n) : t.running.length < limit := by
  have hslots := h.slots_running
  cases turn with
  | takeOff m =>
    have hfree : t.slots.free ≠ 0 := by
      intro hzero
      have hbusy : t.slots.isBusy = true := by simp [Slots.isBusy, hzero]
      have hnone : t.starts? (.takeOff m) = none := if_pos hbusy
      rw [hnone] at hstarts
      cases hstarts
    omega
  | granted m =>
    have hmem : m ∈ t.slots.granted :=
      h.granted.subset (List.mem_filterMap.mpr ⟨_, hturn, rfl⟩)
    have hpos := List.length_pos_of_mem hmem
    omega
  | _ => cases hstarts

/-! ### What the moves do to those who wait -/

theorem pending_grant (t : Tower) : t.grant.pending.Perm t.pending := by
  unfold Tower.grant
  rcases t.slots.grant_cases with ⟨taker, rest, hqueue, -, heq⟩ | ⟨-, heq⟩
  · rw [heq]
    simp [pending, hqueue, List.filterMap_append, Turn.ahead?]
  · rw [heq]
    simp [pending]

theorem running_grant (t : Tower) : t.grant.running = t.running := by
  unfold Tower.grant running
  cases t.slots.grant.2 <;> simp [List.filterMap_append, Turn.fetched?]

theorem pending_compute (t : Tower) (n : Nat) : (t.compute n).pending.Perm t.pending :=
  pending_grant _

theorem running_compute (t : Tower) (n : Nat) : (t.compute n).running = t.running :=
  running_grant _

theorem pending_fetch (t : Tower) (n : Nat) : (t.fetch n).pending.Perm t.pending := by
  unfold Tower.fetch
  split
  · exact .refl _
  · exact pending_compute t n

/-- A fetch that is not held is used at once. -/
theorem running_fetch (t : Tower) (n : Nat) :
    (t.fetch n).running.length + (if !t.hold then 1 else 0) = t.running.length + 1 := by
  unfold Tower.fetch
  cases t.hold with
  | true =>
    simp [running]
    omega
  | false => simp [running_compute]

theorem next_fetch (t : Tower) (n : Nat) : (t.fetch n).next = t.next := by
  unfold Tower.fetch
  split <;> rfl

/-- A turn that carries no flight on has nothing to do with fetches. -/
theorem idle_of_flight? (h : turn.flight? = none) : turn.ahead? = none ∧ turn.fetched? = none ∧
    t.starts? turn = none ∧ t.ends turn = false := by
  cases turn <;> first | exact ⟨rfl, rfl, rfl, rfl⟩ | cases h

theorem ends_of_starts (h : t.starts? turn = some n) : t.ends turn = !t.hold := by
  cases turn with
  | takeOff m => simp only [Tower.ends, h, Option.isSome_some, Bool.true_and]
  | granted m => rfl
  | _ => cases h

theorem ends_eq_false (hfetched : turn.fetched? = none) (h : t.starts? turn = none) :
    t.ends turn = false := by
  cases turn with
  | fetched m => cases hfetched
  | _ => simp only [Tower.ends, h, Option.isSome_none, Bool.false_and]

/-- What a turn of a flight that is under way does to those who have yet to
    fetch: the one that starts is not among them any more. -/
theorem Moves.pending (h : t.Moves turn t') (hflight : ∀ n, turn.flight? = some n → n ∈ t.flights) :
    ((t.starts? turn).toList ++ t'.pending).Perm (turn.ahead?.toList ++ t.pending) ∧
        t'.next = t.next ∨
      t.starts? turn = none ∧ turn.ahead? = none ∧ t'.pending.Perm (t.next :: t.pending) ∧
        t'.next = t.next + 1 := by
  cases h with
  | leave hnone =>
    obtain ⟨hahead, -, hstarts, -⟩ := idle_of_flight? (t := t) hnone
    rw [hahead, hstarts]
    exact .inl ⟨.refl _, rfl⟩
  | launch hnone =>
    obtain ⟨hahead, -, hstarts, -⟩ := idle_of_flight? (t := t) hnone
    refine .inr ⟨hstarts, hahead, ?_, rfl⟩
    unfold Tower.launch Tower.pending
    simp only [List.filterMap_append, List.append_assoc]
    exact List.perm_middle
  | lose hsome hn => exact absurd (hflight _ hsome) hn
  | takeOff n =>
    refine .inl ?_
    unfold Tower.takeOff Tower.starts?
    cases hbusy : t.slots.isBusy with
    | true =>
      refine ⟨?_, rfl⟩
      show (t.turns.filterMap Turn.ahead? ++ (t.slots.queue ++ [n])).Perm (n :: t.pending)
      rw [← List.append_assoc]
      exact List.perm_append_singleton n _
    | false => exact ⟨(pending_fetch _ n).cons n, next_fetch _ n⟩
  | useGranted n =>
    exact .inl ⟨((pending_fetch _ n).trans (pending_grant _)).cons n, next_fetch _ n⟩
  | compute n => exact .inl ⟨pending_compute t n, rfl⟩

/-- Fetches that run were started, and run until they come to their end. -/
theorem Moves.running (h : t.Moves turn t') (hflight : ∀ n, turn.flight? = some n → n ∈ t.flights) :
    t'.running.length + (if t.ends turn then 1 else 0) =
      turn.fetched?.toList.length + t.running.length + (t.starts? turn).toList.length := by
  cases h with
  | leave hnone =>
    obtain ⟨-, hfetched, hstarts, hends⟩ := idle_of_flight? (t := t) hnone
    rw [hfetched, hstarts, hends]
    simp
  | launch hnone =>
    obtain ⟨-, hfetched, hstarts, hends⟩ := idle_of_flight? (t := t) hnone
    rw [hfetched, hstarts, hends]
    simp [Tower.launch, Tower.running, List.filterMap_append, Turn.fetched?]
  | lose hsome hn => exact absurd (hflight _ hsome) hn
  | takeOff n =>
    cases hbusy : t.slots.isBusy with
    | true =>
      have hstarts : t.starts? (.takeOff n) = none := if_pos hbusy
      rw [ends_eq_false rfl hstarts, hstarts, Tower.takeOff, if_pos hbusy]
      exact (Nat.zero_add _).symm
    | false =>
      have hfree : ¬t.slots.isBusy = true := by simp [hbusy]
      have hstarts : t.starts? (.takeOff n) = some n := if_neg hfree
      rw [ends_of_starts hstarts, hstarts, Tower.takeOff, if_neg hfree]
      exact (running_fetch _ n).trans (congrArg (· + 1) (Nat.zero_add _).symm)
  | useGranted n =>
    have hfetch := running_fetch
      { t with slots := { t.slots with granted := t.slots.granted.erase n } }.grant n
    rw [running_grant] at hfetch
    exact hfetch.trans (congrArg (· + 1) (Nat.zero_add _).symm)
  | compute n =>
    rw [running_compute]
    simp [Tower.ends, Tower.starts?, Turn.fetched?]
    omega

/-- Between the turns no flight starts or ends its fetch. -/
theorem Drifts.same (h : t.Drifts t') :
    t'.next = t.next ∧ t'.pending = t.pending ∧ t'.running.length = t.running.length := by
  cases h with
  | stay => exact ⟨rfl, rfl, rfl⟩
  | hold => exact ⟨rfl, rfl, rfl⟩
  | @letGo n hn =>
    refine ⟨rfl, ?_, ?_⟩
    · simp [Tower.letGo, Tower.pending, List.filterMap_append, Turn.ahead?]
    · have hlength := List.length_erase_of_mem hn
      have hpos := List.length_pos_of_mem hn
      simp only [Tower.letGo, Tower.running, List.filterMap_append, List.length_append, hlength,
        List.filterMap_cons, Turn.fetched?, List.filterMap_nil, List.length_singleton]
      omega

end Tower

namespace Service

variable {s : Service}

/-! ### How often the source is asked -/

@[simp]
theorem fetches_conclude (t : Task) (x : Attempt Response) :
    (s.conclude t x).fetches = s.fetches := by
  unfold Service.conclude
  dsimp only
  split
  · rfl
  · split <;> rfl

theorem fetches_begin (t : Task) : (s.begin t).fetches = s.fetches := by
  have hrequest : ∀ entity year key, (s.request t entity year key).fetches = s.fetches := by
    intro entity year key
    unfold Service.request
    dsimp only
    split
    · exact fetches_conclude t _
    · rfl
    · rfl
  have hlookUp : ∀ entity year, (s.lookUp t entity year).fetches = s.fetches := by
    intro entity year
    unfold Service.lookUp
    split
    · exact fetches_conclude t _
    · split
      · exact fetches_conclude t _
      · exact hrequest entity year _
  unfold Service.begin
  split
  · exact fetches_conclude t _
  · split
    · exact hlookUp _ _
    · rfl

theorem fetches_takeUp (c : Call) : (s.takeUp c).fetches = s.fetches := by
  unfold Service.takeUp
  dsimp only
  split
  · rfl
  · split
    · rfl
    · exact fetches_begin _

theorem fetches_collect (t : Task) (place : Nat) (x : Attempt Result) :
    (s.collect t place x).fetches = s.fetches := by
  unfold Service.collect
  split
  · dsimp only
    split <;> rfl
  · rfl

theorem fetches_goOn (t : Task) (failure : Option Failure) :
    (s.goOn t failure).fetches = s.fetches := by
  cases failure with
  | some f => exact fetches_conclude t _
  | none => exact fetches_conclude t _

theorem fetches_land (c : Computation) (x : Attempt Result) :
    (s.land c x).fetches = s.fetches := by
  unfold Service.land
  dsimp only
  split <;> rfl

theorem fetches_compute (c : Computation) : (s.compute c).fetches = s.fetches + 1 := by
  unfold Service.compute
  dsimp only
  split <;> exact fetches_land c _

theorem fetches_fetch (c : Computation) :
    (s.fetch c).fetches = s.fetches + (if !s.hold then 1 else 0) := by
  unfold Service.fetch
  cases s.hold with
  | true => rfl
  | false => exact fetches_compute c

theorem fetches_takeOff (c : Computation) :
    (s.takeOff c).fetches = s.fetches + (if s.tower.ends (.takeOff c.flight) then 1 else 0) := by
  unfold Service.takeOff Slots.acquire
  cases hbusy : s.slots.isBusy with
  | true =>
    have hstarts : s.tower.starts? (.takeOff c.flight) = none := if_pos hbusy
    rw [Tower.ends_eq_false rfl hstarts]
    rfl
  | false =>
    have hstarts : s.tower.starts? (.takeOff c.flight) = some c.flight :=
      if_neg (by rw [show s.tower.slots.isBusy = false from hbusy]; simp)
    rw [Tower.ends_of_starts hstarts]
    exact fetches_fetch (s := { s with slots := _ }) c

/-- The source is asked where a fetch comes to its end. -/
theorem fetches_perform {turn : Turn}
    (hflight : ∀ n, turn.flight? = some n → ∃ c, s.computation? n = some c) :
    (s.perform turn).fetches = s.fetches + (if s.tower.ends turn then 1 else 0) := by
  have htask : ∀ (n : Nat) (next : Task → Service), s.tower.ends turn = false →
      (∀ t, (next t).fetches = s.fetches) →
        (s.withTask n next).fetches = s.fetches + (if s.tower.ends turn then 1 else 0) := by
    intro n next hends hnext
    rw [hends]
    exact withTask_of (P := fun s' => s'.fetches = s.fetches) (fun _ => rfl) fun t _ _ => hnext t
  have hcomputation : ∀ (n : Nat) (next : Computation → Service), turn.flight? = some n →
      (∀ c, c.flight = n → (next c).fetches =
        s.fetches + (if s.tower.ends turn then 1 else 0)) →
        (s.withComputation n next).fetches =
          s.fetches + (if s.tower.ends turn then 1 else 0) := by
    intro n next hsome hnext
    obtain ⟨c, hc⟩ := hflight n hsome
    unfold withComputation
    rw [hc]
    exact hnext c (flight_of_computation? hc)
  cases turn with
  | call c => exact fetches_takeUp c
  | begin n => exact htask n _ rfl fetches_begin
  | takeOff n =>
    refine hcomputation n _ rfl ?_
    rintro c rfl
    exact fetches_takeOff c
  | granted n =>
    refine hcomputation n _ rfl ?_
    rintro c rfl
    exact fetches_fetch c
  | fetched n =>
    refine hcomputation n _ rfl ?_
    rintro c rfl
    exact fetches_compute c
  | deliver n x => exact htask n _ rfl fun _ => rfl
  | resume n x => exact htask n _ rfl fun t => fetches_conclude t _
  | report n place x => exact htask n _ rfl fun t => fetches_collect t place x
  | wake n failure => exact htask n _ rfl fun t => fetches_goOn t failure

theorem fetches_step {e : Event} (h : ∀ place, e ≠ .take place) :
    (s.step e).fetches = s.fetches := by
  cases e with
  | take place => exact absurd rfl (h place)
  | letGo entity year version =>
    rcases s.letGo_cases entity year version with heq | ⟨flight, -, heq⟩ <;> rw [heq]
    rfl
  | addLedger l =>
    obtain ⟨source, heq⟩ := s.exists_addLedger_eq l
    rw [heq]
  | save d =>
    obtain ⟨registry, journal, heq, -⟩ := s.exists_save_eq d
    rw [heq]
  | call | cancel | hold | evict | invalidate | clear | clock => rfl

/-! ### The fetches of a run -/

/-- The flight that starts to fetch in a turn. -/
def startsIn? (s : Service) : Turn → Option Nat
  | .takeOff n => (s.computation? n).bind fun c =>
    if (s.slots.acquire c.flight).2 then some c.flight else none
  | .granted n => (s.computation? n).map (·.flight)
  | _ => none

/-- The flight that starts to fetch when something happens. -/
def startsFetch? (s : Service) : Event → Option Nat
  | .take place => (s.ready[place]?).bind s.startsIn?
  | _ => none

/-- The flights that start to fetch in a run, one after the other. -/
def starts (s : Service) : List Event → List Nat
  | [] => []
  | e :: rest => (s.startsFetch? e).toList ++ (s.step e).starts rest

/-- The flights whose fetch was started and has not been used yet. -/
def running (s : Service) : List Nat := s.fetching ++ s.ready.filterMap Turn.fetched?

theorem running_tower (s : Service) : s.tower.running = s.running := by
  unfold Tower.running running tower
  rw [List.filterMap_filter]
  congr 2
  funext turn
  cases turn <;> rfl

/-- With its turn a flight is one of those under way. -/
theorem exists_computation {turn : Turn} {limit : Nat}
    (h : { s with ready := turn :: s.ready }.tower.Orderly limit []) {n : Nat}
    (hn : turn.flight? = some n) : ∃ c, s.computation? n = some c ∧ c.flight = n := by
  have hperm : { s with ready := turn :: s.ready }.tower.places.Perm s.tower.flights := h.places
  have hplace : n ∈ { s with ready := turn :: s.ready }.tower.places := by
    refine List.mem_append_left _ (List.mem_append_left _ (List.mem_filterMap.mpr ⟨turn, ?_, hn⟩))
    exact List.mem_filter.mpr ⟨List.mem_cons_self, by rw [hn]; rfl⟩
  obtain ⟨c, hc, hflight⟩ := List.mem_map.mp (hperm.subset hplace)
  unfold computation?
  cases hfind : s.computations.find? (·.flight == n) with
  | none => exact absurd (List.find?_eq_none.mp hfind c hc) (by simp [hflight])
  | some d => exact ⟨d, rfl, by simpa using List.find?_some hfind⟩

theorem startsIn?_eq {turn : Turn} (hflight : ∀ n, turn.flight? = some n →
    ∃ c, s.computation? n = some c ∧ c.flight = n) : s.startsIn? turn = s.tower.starts? turn := by
  cases turn with
  | takeOff n =>
    obtain ⟨c, hc, rfl⟩ := hflight n rfl
    show ((s.computation? c.flight).bind fun c =>
      if (s.slots.acquire c.flight).2 then some c.flight else none) =
      if s.slots.isBusy then none else some c.flight
    rw [hc, Option.bind_some]
    unfold Slots.acquire
    cases s.slots.isBusy <;> rfl
  | granted n =>
    obtain ⟨c, hc, rfl⟩ := hflight n rfl
    show (s.computation? c.flight).map (·.flight) = some c.flight
    rw [hc]
    rfl
  | _ => rfl

/-- What holds of the flights that have started to fetch so far: they are
    different ones, none of them has yet to fetch, and there is one for every
    fetch that was made or is running. -/
structure FetchesOnce (limit : Nat) (started : List Nat) (s : Service) : Prop where
  orderly : s.tower.Orderly limit []
  nodup : started.Nodup
  past : ∀ n ∈ started, n < s.tower.next ∧ n ∉ s.tower.pending
  counted : started.length = s.fetches + s.tower.running.length

namespace FetchesOnce

variable {limit : Nat} {started : List Nat}

/-- The order of the turns does not matter. -/
theorem perm (h : s.FetchesOnce limit started) {ready : List Turn} (hperm : ready.Perm s.ready) :
    { s with ready := ready }.FetchesOnce limit started := by
  have hturns := hperm.filter (·.flight?.isSome)
  refine ⟨h.orderly.perm hturns, h.nodup, fun n hn => ⟨(h.past n hn).1, ?_⟩, ?_⟩
  · have hpending : Tower.pending { s with ready := ready }.tower ~ s.tower.pending :=
      (hturns.filterMap _).append_right _
    rw [hpending.mem_iff]
    exact (h.past n hn).2
  · have hrunning : Tower.running { s with ready := ready }.tower ~ s.tower.running :=
      (hturns.filterMap _).append_left _
    rw [hrunning.length_eq]
    exact h.counted

/-- A turn starts the fetch of a flight that has not fetched before, or of
    none. -/
theorem perform {turn : Turn} (h : { s with ready := turn :: s.ready }.FetchesOnce limit started) :
    (s.perform turn).FetchesOnce limit (started ++ (s.startsIn? turn).toList) := by
  have hexists := fun n => exists_computation (n := n) h.orderly
  have hflight : ∀ n, turn.flight? = some n → n ∈ s.tower.flights := by
    intro n hn
    obtain ⟨c, hc, rfl⟩ := hexists n hn
    exact List.mem_map_of_mem (List.mem_of_find?_eq_some hc)
  have hpending : { s with ready := turn :: s.ready }.tower.pending =
      turn.ahead?.toList ++ s.tower.pending := by
    cases turn <;> rfl
  have hrunning : { s with ready := turn :: s.ready }.tower.running.length =
      turn.fetched?.toList.length + s.tower.running.length := by
    have hsame : { s with ready := turn :: s.ready }.tower.running =
        s.fetching ++ (turn.fetched?.toList ++ s.tower.turns.filterMap Turn.fetched?) := by
      cases turn <;> rfl
    rw [hsame, Tower.running, List.length_append, List.length_append, List.length_append]
    exact Nat.add_left_comm _ _ _
  obtain ⟨hnodup, hunder⟩ := h.orderly.pending_nodup
  rw [hpending] at hnodup hunder
  have hpast : ∀ n ∈ started, n < s.tower.next ∧ n ∉ turn.ahead?.toList ++ s.tower.pending := by
    rw [← hpending]
    exact h.past
  have hmoves := tower_perform (s := s) turn
  have hcounted : (started ++ (s.tower.starts? turn).toList).length =
      (s.perform turn).fetches + (s.perform turn).tower.running.length := by
    have hfetches := fetches_perform (s := s) fun n hn => (hexists n hn).imp fun _ => And.left
    have hmoved := hmoves.running hflight
    have hbefore := h.counted
    rw [hrunning] at hbefore
    rw [List.length_append, hfetches, hbefore]
    dsimp only
    omega
  rw [startsIn?_eq hexists]
  rcases hmoves.pending hflight with ⟨hwait, hnext⟩ | ⟨hnone, -, hwait, hnext⟩
  · -- who starts had yet to fetch, so it is none of those that started before
    have hstarts : (s.tower.starts? turn).toList ⊆ turn.ahead?.toList ++ s.tower.pending :=
      fun n hn => hwait.subset (List.mem_append_left _ hn)
    have hleft := List.nodup_append.mp (hwait.nodup_iff.mpr hnodup)
    refine ⟨orderly_perform h.orderly, List.nodup_append.mpr ⟨h.nodup, hleft.1, ?_⟩, ?_, hcounted⟩
    · rintro n hn _ hnew rfl
      exact (hpast n hn).2 (hstarts hnew)
    · intro n hn
      rw [hnext]
      rcases List.mem_append.mp hn with hold | hnew
      · exact ⟨(hpast n hold).1,
          fun hmem => (hpast n hold).2 (hwait.subset (List.mem_append_right _ hmem))⟩
      · exact ⟨h.orderly.fresh n (hunder (hstarts hnew)),
          fun hmem => hleft.2.2 n hnew n hmem rfl⟩
  · -- a flight that is launched has the next number
    have hsame : started ++ (s.tower.starts? turn).toList = started := by
      rw [hnone]
      exact List.append_nil _
    rw [hsame] at hcounted ⊢
    refine ⟨orderly_perform h.orderly, h.nodup, fun n hn => ⟨?_, fun hmem => ?_⟩, hcounted⟩
    · rw [hnext]
      exact Nat.lt_succ_of_lt (hpast n hn).1
    · rcases List.mem_cons.mp (hwait.subset hmem) with rfl | hmem
      · exact Nat.lt_irrefl _ (hpast _ hn).1
      · exact (hpast n hn).2 (List.mem_append_right _ hmem)

theorem take (h : s.FetchesOnce limit started) (place : Nat) :
    (s.take place).FetchesOnce limit (started ++ (s.startsFetch? (.take place)).toList) := by
  have hstarts : s.startsFetch? (.take place) = (s.ready[place]?).bind s.startsIn? := rfl
  rw [hstarts]
  unfold Service.take
  cases hturn : s.ready[place]? with
  | none =>
    rw [Option.bind_none, Option.toList_none, List.append_nil]
    exact h
  | some turn =>
    obtain ⟨hlt, rfl⟩ := List.getElem?_eq_some_iff.mp hturn
    exact (h.perm (List.getElem_cons_eraseIdx_perm hlt)).perform
      (s := { s with ready := s.ready.eraseIdx place })

/-- Whatever happens, no flight starts to fetch for a second time. -/
theorem step (h : s.FetchesOnce limit started) (e : Event) :
    (s.step e).FetchesOnce limit (started ++ (s.startsFetch? e).toList) := by
  by_cases htake : ∃ place, e = .take place
  · obtain ⟨place, rfl⟩ := htake
    exact h.take place
  · have hother : ∀ place, e ≠ .take place := fun place he => htake ⟨place, he⟩
    have hnone : s.startsFetch? e = none := by
      cases e with
      | take place => exact absurd rfl (hother place)
      | _ => rfl
    obtain ⟨hnext, hpending, hrunning⟩ := (tower_step hother).same
    rw [hnone, Option.toList_none, List.append_nil]
    refine ⟨orderly_step h.orderly e, h.nodup, ?_, ?_⟩
    · rw [hnext, hpending]
      exact h.past
    · rw [hrunning, fetches_step hother]
      exact h.counted

theorem run (events : List Event) (h : s.FetchesOnce limit started) :
    (s.run events).FetchesOnce limit (started ++ s.starts events) := by
  induction events generalizing s started with
  | nil =>
    rw [starts, List.append_nil]
    exact h
  | cons e events ih =>
    rw [starts, ← List.append_assoc]
    exact ih (h.step e)

/-- While no fetch runs and no flight waits for a slot, all slots are free. -/
theorem slots_eq (h : s.FetchesOnce limit started) (hrunning : s.running = [])
    (hqueue : s.slots.queue = []) (hgranted : s.slots.granted = []) :
    s.slots = { free := limit } := by
  have hslots := h.orderly.slots_running
  rw [running_tower, hrunning] at hslots
  have hfree : s.slots.free = limit := by
    rw [show s.tower.slots = s.slots from rfl, hgranted] at hslots
    exact hslots
  rcases hs : s.slots with ⟨free, queue, granted⟩
  rw [hs] at hfree hqueue hgranted
  dsimp only at hfree hqueue hgranted
  rw [hfree, hqueue, hgranted]

end FetchesOnce

/-- A fetch is started only while less than the limit are running. -/
theorem running_lt_of_startsFetch? {limit : Nat} {started : List Nat}
    (h : s.FetchesOnce limit started) {e : Event} {n : Nat} (hstarts : s.startsFetch? e = some n) :
    s.running.length < limit := by
  cases e with
  | take place =>
    obtain ⟨turn, hturn, hstarts⟩ := Option.bind_eq_some_iff.mp hstarts
    obtain ⟨hlt, rfl⟩ := List.getElem?_eq_some_iff.mp hturn
    have hperm := List.getElem_cons_eraseIdx_perm hlt
    have hexists := fun n => exists_computation (s := { s with ready := s.ready.eraseIdx place })
      (n := n) (h.perm hperm).orderly
    have htower : s.tower.starts? s.ready[place] = some n :=
      (startsIn?_eq (s := s) hexists).symm.trans hstarts
    rw [← running_tower]
    refine h.orderly.running_lt (List.mem_filter.mpr ⟨List.getElem_mem hlt, ?_⟩) htower
    cases hready : s.ready[place] with
    | takeOff | granted => rfl
    | _ =>
      rw [hready] at htower
      cases htower
  | _ => cases hstarts

/-- A flight is launched for a key that has no registered flight, and then it is
    the registered one. -/
theorem registered_of_launched {e : Event} {c : Computation} (hnew : c ∈ (s.step e).computations)
    (hold : c ∉ s.computations) : s.cache.cache.flight? c.key = none ∧
      (s.step e).cache.cache.flight? c.key = some c.flight := by
  have hlaunches := (launches_of_mem_step hnew).resolve_left hold
  obtain ⟨n, hasked⟩ := hlaunches.asked
  refine ⟨hlaunches.flight, ?_⟩
  have hcache : (s.step e).cache = (s.cache.run (s.cacheEvents e)).1 := by
    refine cache_step_of fun d hd => ?_
    -- who asks the cache does not end a flight
    have hland := cacheEvents_of_computesIn? hd
    rw [hasked] at hland
    cases hland
  rw [hcache, hasked, run_single, hlaunches.number]
  exact SharedCache.step_start hlaunches.entry hlaunches.flight n

/-- **Fetching is bounded.**  Whatever happens to a service, at no moment there
    are more running fetches than slots, and a fetch is started only while there
    are less; each flight starts one fetch, and no flight is launched for a key
    while another one is registered for it.  No slot is lost: while no fetch runs
    and no flight waits for a slot all are free, and when nothing is left to do
    no flight is under way. -/
theorem bounded_fetching (registry : Registry) (source : LedgerSource) (settings : Settings)
    (given : Option (SharedCache Nat)) (now : Except TimeFault Moment) (requestId : Nat → String)
    (j : Log.Journal) (events : List Event) :
    let first := { start registry source settings given now requestId with journal := j }
    let s := first.run events
    s.running.length ≤ settings.concurrencyLimit ∧
    (∀ e n, s.startsFetch? e = some n → s.running.length < settings.concurrencyLimit) ∧
    (first.starts events).Nodup ∧
    (first.starts events).length = s.fetches + s.running.length ∧
    (∀ e, ∀ c ∈ (s.step e).computations, c ∉ s.computations →
      s.cache.cache.flight? c.key = none ∧
      (s.step e).cache.cache.flight? c.key = some c.flight) ∧
    (s.running = [] → s.slots.queue = [] → s.slots.granted = [] →
      s.slots = { free := settings.concurrencyLimit }) ∧
    (1 ≤ settings.concurrencyLimit → s.ready = [] → s.running = [] →
      s.computations = [] ∧ s.slots = { free := settings.concurrencyLimit }) := by
  intro first s
  have hfirst : first.FetchesOnce settings.concurrencyLimit [] := {
    orderly := orderly_start registry source settings given now requestId
    nodup := List.nodup_nil
    past := nofun
    counted := rfl }
  have hs : s.FetchesOnce settings.concurrencyLimit (first.starts events) := by
    have hrun := hfirst.run events
    rwa [List.nil_append] at hrun
  have hslots := hs.orderly.slots_running
  rw [running_tower] at hslots
  refine ⟨by omega, fun e n => running_lt_of_startsFetch? hs, hs.nodup, ?_,
    fun e c => registered_of_launched, hs.slots_eq, fun hlimit hready hrunning => ?_⟩
  · rw [← running_tower]
    exact hs.counted
  · have hturns : s.tower.turns = [] := by
      unfold tower
      rw [hready]
      rfl
    have hrest := hs.orderly.at_rest hlimit hturns (List.append_eq_nil_iff.mp hrunning).1
    exact ⟨List.map_eq_nil_iff.mp hrest.1, hrest.2⟩

end Service

end KeyFigures
