/-
  KeyFigures/Proofs/Service/Tower.lean
  ====================================
  **No flight is lost, and no slot.**

  Seen from the tower a service is a small machine: flights are launched, queue
  for a slot, wait for their ledger and land (`Tower`).  Work that concerns no
  flight leaves the machine alone, and what a turn does to it is listed once
  (`Service.tower_perform`).

  Every flight is in one place, and every slot is free, given to a flight or
  used by a fetch (`Tower.Orderly`).  So when nothing is ready and no fetch is
  waited for, no flight is under way any more and all slots are free
  (`Tower.Orderly.at_rest`).
-/
import KeyFigures.Proofs.Cache.Operations
import KeyFigures.Proofs.Service.Calls

namespace KeyFigures

open scoped List

namespace Turn

/-- The flight that a turn carries on. -/
def flight? : Turn → Option Nat
  | .takeOff n | .granted n | .fetched n => some n
  | _ => none

/-- The flight that goes on with a slot by a turn. -/
def granted? : Turn → Option Nat
  | .granted n => some n
  | _ => none

/-- Whether a flight goes on with its ledger by a turn. -/
def isFetched : Turn → Bool
  | .fetched _ => true
  | _ => false

end Turn

/-- Nobody gets a slot where nobody waits for one. -/
theorem Slots.grant_of_queue {s : Slots} (h : s.queue = []) : s.grant = (s, none) := by
  rcases s.grant_cases with ⟨taker, rest, hqueue, -⟩ | ⟨-, heq⟩
  · rw [h] at hqueue
    cases hqueue
  · exact heq

/-- The flights of a service, and what carries them on. -/
structure Tower where
  /-- The turns that are ready and carry a flight on. -/
  turns : List Turn
  slots : Slots
  fetching : List Nat
  flights : List Nat
  /-- The number of the next flight. -/
  next : Nat
  hold : Bool

namespace Tower

/-! ### Moves -/

def launch (t : Tower) : Tower :=
  { t with
    flights := t.flights ++ [t.next]
    turns := t.turns ++ [.takeOff t.next]
    next := t.next + 1 }

/-- Gives a free slot to the longest waiting, if there is one. -/
def grant (t : Tower) : Tower :=
  let (slots, next) := t.slots.grant
  { t with slots := slots, turns := t.turns ++ (next.map Turn.granted).toList }

/-- A flight lands and gives its slot back. -/
def compute (t : Tower) (n : Nat) : Tower :=
  { t with
    slots := { t.slots with free := t.slots.free + 1 }
    flights := t.flights.filter (· != n) }.grant

def fetch (t : Tower) (n : Nat) : Tower :=
  if t.hold then { t with fetching := t.fetching ++ [n] } else t.compute n

def takeOff (t : Tower) (n : Nat) : Tower :=
  if t.slots.isBusy then { t with slots := { t.slots with queue := t.slots.queue ++ [n] } }
  else { t with slots := { t.slots with free := t.slots.free - 1 } }.fetch n

def useGranted (t : Tower) (n : Nat) : Tower :=
  { t with slots := { t.slots with granted := t.slots.granted.erase n } }.grant.fetch n

def letGo (t : Tower) (n : Nat) : Tower :=
  { t with fetching := t.fetching.erase n, turns := t.turns ++ [.fetched n] }

/-- What comes of a turn that is taken out. -/
inductive Moves (t : Tower) : Turn → Tower → Prop where
  | leave {turn : Turn} (h : turn.flight? = none) : Moves t turn t
  | launch {turn : Turn} (h : turn.flight? = none) : Moves t turn t.launch
  /-- There is no such flight. -/
  | lose {turn : Turn} {n : Nat} (h : turn.flight? = some n) (hn : n ∉ t.flights) : Moves t turn t
  | takeOff (n : Nat) : Moves t (.takeOff n) (t.takeOff n)
  | useGranted (n : Nat) : Moves t (.granted n) (t.useGranted n)
  | compute (n : Nat) : Moves t (.fetched n) (t.compute n)

/-! ### Where the flights are -/

/-- The places of flights: a turn, the queue, a fetch. -/
def places (t : Tower) : List Nat :=
  t.turns.filterMap Turn.flight? ++ t.slots.queue ++ t.fetching

/-- Every flight is in one place or in `hand`, and every slot is accounted for;
    those in hand have one. -/
structure Counted (limit : Nat) (hand : List Nat) (t : Tower) : Prop where
  places : (hand ++ t.places).Perm t.flights
  numbers : t.flights.Nodup
  fresh : ∀ n ∈ t.flights, n < t.next
  granted : (t.turns.filterMap Turn.granted?).Perm t.slots.granted
  slots : t.slots.free + t.slots.granted.length + t.fetching.length +
    t.turns.countP Turn.isFetched + hand.length = limit

/-- Besides, flights queue only while no slot is free, or while one was given
    and is not used yet. -/
structure Orderly (limit : Nat) (hand : List Nat) (t : Tower) : Prop extends
    Counted limit hand t where
  waits : t.slots.queue ≠ [] → t.slots.free = 0 ∨ t.slots.granted ≠ []

/-- What happens to a tower between the turns. -/
inductive Drifts (t : Tower) : Tower → Prop where
  | stay : Drifts t t
  | hold (isHeld : Bool) : Drifts t { t with hold := isHeld }
  /-- A fetch that was waited for comes to its end. -/
  | letGo {n : Nat} (hn : n ∈ t.fetching) : Drifts t (t.letGo n)

variable {t : Tower} {limit n : Nat} {hand : List Nat}

theorem Counted.grant (h : t.Counted limit hand) : t.grant.Orderly limit hand := by
  have hslots := h.slots
  unfold Tower.grant
  rcases t.slots.grant_cases with ⟨taker, rest, hqueue, hfree, heq⟩ | ⟨hnone, heq⟩
  · rw [heq]
    refine { h with places := ?_, granted := ?_, slots := ?_, waits := fun _ => .inr (by simp) }
    · have hplaces := h.places
      unfold Tower.places at hplaces ⊢
      rw [hqueue] at hplaces
      simpa [List.filterMap_append, Turn.flight?] using hplaces
    · show ((t.turns ++ [Turn.granted taker]).filterMap Turn.granted?).Perm _
      rw [List.filterMap_append]
      exact h.granted.append_right _
    · simp [List.countP_append, Turn.isFetched]
      omega
  · rw [heq]
    dsimp only [Option.map_none, Option.toList_none]
    rw [List.append_nil]
    refine { h with waits := fun hqueue => .inl (hnone.resolve_left hqueue) }

theorem Counted.compute (h : t.Counted limit [n]) : (t.compute n).Orderly limit [] := by
  refine Counted.grant {
    places := ?_
    numbers := h.numbers.filter _
    fresh := fun m hm => h.fresh m (List.mem_of_mem_filter hm)
    granted := h.granted
    slots := ?_ }
  · show t.places.Perm (t.flights.filter (· != n))
    rw [← h.numbers.erase_eq_filter]
    exact (List.cons_perm_iff_perm_erase.mp h.places).2
  · have hslots := h.slots
    simp only [List.length_singleton, List.length_nil] at hslots ⊢
    omega

theorem Orderly.fetch (h : t.Orderly limit [n]) : (t.fetch n).Orderly limit [] := by
  unfold Tower.fetch
  split
  · refine { h with places := ?_, slots := ?_ }
    · refine List.Perm.trans ?_ h.places
      show (t.turns.filterMap Turn.flight? ++ t.slots.queue ++ (t.fetching ++ [n])).Perm
        (n :: t.places)
      rw [← List.append_assoc]
      exact List.perm_append_singleton n _
    · have hslots := h.slots
      simp only [List.length_append, List.length_singleton, List.length_nil] at hslots ⊢
      omega
  · exact h.toCounted.compute

theorem Orderly.takeOff (h : { t with turns := .takeOff n :: t.turns }.Orderly limit []) :
    (t.takeOff n).Orderly limit [] := by
  have hplaces : (n :: t.places).Perm t.flights := h.places
  unfold Tower.takeOff
  split
  · rename_i hbusy
    refine { h with places := ?_, waits := fun _ => ?_ }
    · refine List.Perm.trans ?_ hplaces
      show (t.turns.filterMap Turn.flight? ++ (t.slots.queue ++ [n]) ++ t.fetching).Perm
        (n :: t.places)
      rw [← List.append_assoc, List.append_assoc _ [n]]
      exact List.perm_middle
    · simp only [Slots.isBusy, Bool.or_eq_true, beq_iff_eq, Bool.not_eq_true',
        List.isEmpty_eq_false_iff] at hbusy
      rcases hbusy with (hfree | hqueue) | hgranted
      · exact .inl hfree
      · exact h.waits hqueue
      · exact .inr hgranted
  · rename_i hbusy
    simp only [Slots.isBusy, Bool.or_eq_true, beq_iff_eq, Bool.not_eq_true',
      List.isEmpty_eq_false_iff, not_or, not_not] at hbusy
    obtain ⟨⟨hfree, hqueue⟩, -⟩ := hbusy
    refine Orderly.fetch { h with places := hplaces, slots := ?_, waits := fun hne => ?_ }
    · have hslots := h.slots
      simp only [List.countP_cons, Turn.isFetched, List.length_nil, List.length_singleton,
        Bool.false_eq_true, if_false] at hslots ⊢
      omega
    · exact absurd hqueue hne

theorem Orderly.useGranted (h : { t with turns := .granted n :: t.turns }.Orderly limit []) :
    (t.useGranted n).Orderly limit [] := by
  have hgranted : (n :: t.turns.filterMap Turn.granted?).Perm t.slots.granted := h.granted
  obtain ⟨hmem, herased⟩ := List.cons_perm_iff_perm_erase.mp hgranted
  have hslots := h.slots
  have hused : { t with slots := { t.slots with granted := t.slots.granted.erase n } }.Counted
      limit [n] := { h with granted := herased, slots := ?_ }
  · exact hused.grant.fetch
  have hlength := List.length_erase_of_mem hmem
  have hpos := List.length_pos_of_mem hmem
  simp only [List.countP_cons, Turn.isFetched, List.length_nil, List.length_singleton,
    Bool.false_eq_true, if_false] at hslots ⊢
  omega

theorem Orderly.fetched (h : { t with turns := .fetched n :: t.turns }.Orderly limit []) :
    (t.compute n).Orderly limit [] := by
  refine Counted.compute { h with slots := ?_ }
  have hslots := h.slots
  simp only [List.countP_cons, Turn.isFetched, List.length_nil, List.length_singleton,
    if_true] at hslots ⊢
  omega

theorem Orderly.launch (h : t.Orderly limit []) : t.launch.Orderly limit [] := by
  refine { h with places := ?_, numbers := ?_, fresh := ?_, granted := ?_, slots := ?_ }
  · have hplaces : t.places.Perm t.flights := h.places
    refine List.Perm.trans ?_ (hplaces.append_right [t.next])
    have hmoved : (t.turns.filterMap Turn.flight? ++ t.next :: (t.slots.queue ++ t.fetching)).Perm
        (t.places ++ [t.next]) := by
      refine List.perm_middle.trans ?_
      rw [← List.append_assoc]
      exact (List.perm_append_singleton t.next t.places).symm
    simpa [Tower.launch, Tower.places, List.filterMap_append, Turn.flight?] using hmoved
  · refine List.nodup_append.mpr ⟨h.numbers, List.nodup_singleton _, ?_⟩
    rintro m hm _ hnew rfl
    exact absurd (h.fresh m hm) (by simp [List.mem_singleton.mp hnew])
  · intro m hm
    rcases List.mem_append.mp hm with hm | hm
    · exact Nat.lt_succ_of_lt (h.fresh m hm)
    · exact List.mem_singleton.mp hm ▸ Nat.lt_succ_self _
  · simpa [Tower.launch, List.filterMap_append, List.filterMap_cons, Turn.granted?] using h.granted
  · simpa [Tower.launch, List.countP_append, Turn.isFetched] using h.slots

theorem Orderly.letGo (h : t.Orderly limit []) (hn : n ∈ t.fetching) :
    (t.letGo n).Orderly limit [] := by
  refine { h with places := ?_, granted := ?_, slots := ?_ }
  · have hplaces : t.places.Perm t.flights := h.places
    refine List.Perm.trans ?_ hplaces
    have hmoved : (t.turns.filterMap Turn.flight? ++
        n :: (t.slots.queue ++ t.fetching.erase n)).Perm t.places := by
      rw [Tower.places, List.append_assoc]
      refine List.Perm.append_left _ (List.perm_middle.symm.trans ?_)
      exact (List.perm_cons_erase hn).symm.append_left _
    simpa [Tower.letGo, Tower.places, List.filterMap_append, Turn.flight?] using hmoved
  · simpa [Tower.letGo, List.filterMap_append, List.filterMap_cons, Turn.granted?] using h.granted
  · have hslots := h.slots
    have hlength := List.length_erase_of_mem hn
    have hpos := List.length_pos_of_mem hn
    simp only [Tower.letGo, List.countP_append, List.countP_singleton, Turn.isFetched, if_true]
    omega

theorem Orderly.drift {t' : Tower} (h : t.Orderly limit []) (hdrift : t.Drifts t') :
    t'.Orderly limit [] := by
  cases hdrift with
  | stay => exact h
  | hold isHeld => exact { h with }
  | letGo hn => exact h.letGo hn

/-- The order of the turns does not matter. -/
theorem Orderly.perm {turns : List Turn} (h : t.Orderly limit hand) (hperm : turns ~ t.turns) :
    { t with turns := turns }.Orderly limit hand := by
  refine { h with places := ?_, granted := ?_, slots := ?_ }
  · refine (List.Perm.append_left hand ?_).trans h.places
    exact ((hperm.filterMap _).append_right _).append_right _
  · exact (hperm.filterMap _).trans h.granted
  · rw [hperm.countP_eq]
    exact h.slots

/-- A turn that carries no flight on stands for nothing. -/
theorem Orderly.move {turn : Turn} {t' : Tower} (hmove : t.Moves turn t')
    (h : { t with turns := (turn :: t.turns).filter (·.flight?.isSome) }.Orderly limit [])
    (hturns : ∀ x ∈ t.turns, x.flight?.isSome) : t'.Orderly limit [] := by
  have hsame : t.turns.filter (·.flight?.isSome) = t.turns := List.filter_eq_self.mpr hturns
  have hleft : turn.flight? = none → t.Orderly limit [] := by
    intro hnone
    simpa [List.filter_cons, hnone, hsame] using h
  have hkept : turn.flight?.isSome → { t with turns := turn :: t.turns }.Orderly limit [] := by
    intro hsome
    simpa [List.filter_cons, hsome, hsame] using h
  cases hmove with
  | leave hnone => exact hleft hnone
  | launch hnone => exact (hleft hnone).launch
  | @lose turn n hsome hn =>
    have hplaces : (((turn :: t.turns).filterMap Turn.flight? ++ t.slots.queue) ++
        t.fetching).Perm t.flights := (hkept (by simp [hsome])).places
    have hmem : n ∈ (turn :: t.turns).filterMap Turn.flight? :=
      List.mem_filterMap.mpr ⟨turn, List.mem_cons_self, hsome⟩
    exact absurd (hplaces.subset (List.mem_append_left _ (List.mem_append_left _ hmem))) hn
  | takeOff n => exact (hkept rfl).takeOff
  | useGranted n => exact (hkept rfl).useGranted
  | compute n => exact (hkept rfl).fetched

/-- With no turn left and no fetch that is waited for, all flights have landed
    and all slots are free. -/
theorem Orderly.at_rest (h : t.Orderly limit []) (hlimit : 1 ≤ limit) (hturns : t.turns = [])
    (hfetching : t.fetching = []) : t.flights = [] ∧ t.slots = { free := limit } := by
  have hgranted : t.slots.granted = [] := by
    have hperm := h.granted
    rw [hturns] at hperm
    exact List.nil_perm.mp hperm
  have hfree : t.slots.free = limit := by
    have hslots := h.slots
    simpa [hgranted, hturns, hfetching] using hslots
  have hqueue : t.slots.queue = [] := by
    by_contra hne
    rcases h.waits hne with hzero | hsome
    · omega
    · exact hsome hgranted
  have hflights : t.flights = [] := by
    have hperm := h.places
    simp only [Tower.places, hturns, hqueue, hfetching] at hperm
    exact List.nil_perm.mp hperm
  refine ⟨hflights, ?_⟩
  rcases hslots : t.slots with ⟨free, queue, granted⟩
  rw [hslots] at hgranted hfree hqueue
  dsimp only at hgranted hfree hqueue
  rw [hgranted, hfree, hqueue]

/-! ### A tower with nothing to wait for -/

/-- No fetch is held, a slot is free and nobody has to wait for one. -/
structure Unhindered (t : Tower) : Prop where
  hold : t.hold = false
  fetching : t.fetching = []
  free : 1 ≤ t.slots.free
  queue : t.slots.queue = []
  granted : t.slots.granted = []

theorem grant_of_queue (h : t.slots.queue = []) : t.grant = t := by
  unfold Tower.grant
  rw [Slots.grant_of_queue h]
  show { t with turns := t.turns ++ [] } = t
  rw [List.append_nil]

theorem Unhindered.compute (hold : t.hold = false) (hfetching : t.fetching = [])
    (hqueue : t.slots.queue = []) (hgranted : t.slots.granted = []) (n : Nat) :
    (t.compute n).Unhindered := by
  unfold Tower.compute
  rw [grant_of_queue (by exact hqueue)]
  exact ⟨hold, hfetching, Nat.le_add_left 1 _, hqueue, hgranted⟩

theorem Unhindered.move {turn : Turn} {t' : Tower} (h : t.Unhindered) (hmove : t.Moves turn t') :
    t'.Unhindered := by
  cases hmove with
  | leave => exact h
  | lose => exact h
  | launch => exact { h with }
  | takeOff n =>
    have hpos := h.free
    have hbusy : t.slots.isBusy = false := by
      have hne : t.slots.free ≠ 0 := by omega
      simp [Slots.isBusy, h.queue, h.granted, hne]
    unfold Tower.takeOff Tower.fetch
    rw [hbusy]
    simp only [Bool.false_eq_true, if_false, h.hold]
    refine Unhindered.compute ?_ ?_ ?_ ?_ n
    exacts [rfl, h.fetching, h.queue, h.granted]
  | useGranted n =>
    unfold Tower.useGranted
    rw [grant_of_queue (by exact h.queue)]
    unfold Tower.fetch
    simp only [h.hold, Bool.false_eq_true, if_false]
    refine Unhindered.compute ?_ ?_ ?_ ?_ n
    exacts [rfl, h.fetching, h.queue, by simp [h.granted]]
  | compute n => exact Unhindered.compute h.hold h.fetching h.queue h.granted n

end Tower

/-! ### The tower of a service -/

namespace Service

variable {s : Service}

def tower (s : Service) : Tower where
  turns := s.ready.filter (·.flight?.isSome)
  slots := s.slots
  fetching := s.fetching
  flights := s.computations.map (·.flight)
  next := s.cache.cache.misses
  hold := s.hold

theorem tower_enqueue {turns : List Turn} (h : ∀ turn ∈ turns, turn.flight? = none) :
    (s.enqueue turns).tower = s.tower := by
  have hnone : turns.filter (·.flight?.isSome) = [] := by
    rw [List.filter_eq_nil_iff]
    intro turn hturn
    simp [h turn hturn]
  unfold tower enqueue
  simp only [List.filter_append, hnone, List.append_nil]

theorem tower_record {α : Type} (context : Log.Context) (work : Log.Recorded α) :
    (s.record context work).2.tower = s.tower := rfl

theorem tower_conclude (t : Task) (x : Attempt Response) : (s.conclude t x).tower = s.tower := by
  unfold Service.conclude
  dsimp only
  split
  · rfl
  · split
    · exact tower_enqueue (s := { s with tasks := _ }) (by simp [Turn.flight?])
    · rfl
    · exact tower_enqueue (s := { s with tasks := _ }) (by simp [Turn.flight?])

theorem tower_spawn (t : Task) : (s.spawn t).tower = s.tower := by
  unfold Service.spawn
  refine tower_enqueue (s := { s with tasks := _, nextTask := _ }) fun turn hturn => ?_
  obtain ⟨part, -, rfl⟩ := List.mem_map.mp hturn
  rfl

theorem tower_abandon (dropped : List Task) : (s.abandon dropped).tower = s.tower := by
  have hleave : ∀ (c : SharedCache Nat), (dropped.foldl (fun c t => c.leave t.number) c).cache =
      c.cache := by
    induction dropped with
    | nil => exact fun _ => rfl
    | cons t dropped ih => exact fun c => ih _
  unfold tower abandon
  simp only [hleave]

theorem tower_collect (t : Task) (place : Nat) (x : Attempt Result) :
    (s.collect t place x).tower = s.tower := by
  unfold Service.collect
  split
  · dsimp only
    split
    · exact tower_enqueue (s := { s with tasks := _ }) (by simp [Turn.flight?])
    · rfl
  · exact tower_enqueue (by simp [Turn.flight?])

theorem tower_goOn (t : Task) (failure : Option Failure) : (s.goOn t failure).tower = s.tower := by
  unfold Service.goOn
  split
  · rw [tower_conclude, tower_abandon]
  · exact tower_conclude t _

/-- Who asks the cache launches a flight, or none. -/
theorem tower_request (t : Task) (entity year : Value) (key : CacheKey) :
    (s.request t entity year key).tower = s.tower ∨
      (s.request t entity year key).tower = s.tower.launch := by
  unfold Service.request SharedCache.request
  rcases s.cache.cache.request_cases s.cache.time key with
    ⟨e, -, rfl, heq⟩ | ⟨-, n, -, heq⟩ | ⟨-, -, heq⟩
  · rw [heq]
    refine .inl ((tower_conclude t _).trans ?_)
    rfl
  · rw [heq]
    have htally := s.cache.cache.expire_tally s.cache.time key
    simp only [Cache.tally, Prod.mk.injEq] at htally
    refine .inl ?_
    show { s.tower with next := (s.cache.cache.expire s.cache.time key).misses } = s.tower
    rw [htally.2.1]
    rfl
  · rw [heq]
    refine .inr ?_
    unfold tower Tower.launch
    simp only [List.filter_append, List.map_append]
    rfl

theorem tower_lookUp (t : Task) (entity year : Value) :
    (s.lookUp t entity year).tower = s.tower ∨
      (s.lookUp t entity year).tower = s.tower.launch := by
  unfold Service.lookUp
  split
  · exact .inl (tower_conclude t _)
  · split
    · exact .inl (tower_conclude t _)
    · exact tower_request t entity year _

theorem tower_begin (t : Task) :
    (s.begin t).tower = s.tower ∨ (s.begin t).tower = s.tower.launch := by
  unfold Service.begin
  split
  · exact .inl (tower_conclude t _)
  · split
    · exact tower_lookUp t _ _
    · exact .inl (tower_spawn t)

theorem tower_takeUp (c : Call) :
    (s.takeUp c).tower = s.tower ∨ (s.takeUp c).tower = s.tower.launch := by
  unfold Service.takeUp
  dsimp only
  split
  · exact .inl rfl
  · split
    · exact .inl rfl
    · exact tower_begin _

theorem tower_land (c : Computation) (x : Attempt Result) :
    (s.land c x).tower = { s.tower with flights := s.tower.flights.filter (· != c.flight) } := by
  have hflights : (s.computations.filter (·.flight != c.flight)).map (·.flight) =
      s.tower.flights.filter (· != c.flight) := by
    unfold tower
    rw [List.filter_map]
    rfl
  unfold Service.land
  dsimp only
  split
  · rw [← hflights]
    rfl
  · rename_i f _
    rw [tower_enqueue (by simp [Turn.flight?]), tower_record, ← hflights]
    have hmisses : (s.cache.land f (s.cache.arrival f x)).1.cache.misses =
        s.cache.cache.misses := by
      unfold SharedCache.land
      rcases s.cache.cache.land_cases s.cache.time f.key f.number (s.cache.arrival f x) with
        ⟨r, evicted, -, -, heq⟩ | ⟨failure, -, -, heq⟩ | ⟨-, landing, -, heq⟩ <;>
        rw [heq] <;> rfl
    unfold tower
    simp only [hmisses]

theorem tower_grant (slots : Slots) :
    ({ s with slots := slots.grant.1 }.enqueue (slots.grant.2.map Turn.granted).toList).tower =
      { s.tower with slots := slots }.grant := by
  unfold tower enqueue Tower.grant
  simp only [List.filter_append]
  cases slots.grant.2 <;> rfl

theorem tower_compute (c : Computation) : (s.compute c).tower = s.tower.compute c.flight := by
  have hrelease : ∀ s : Service, s.releaseSlot.tower =
      { s.tower with slots := { s.slots with free := s.slots.free + 1 } }.grant :=
    fun s => tower_grant { s.slots with free := s.slots.free + 1 }
  have hreleased := hrelease ({ s with fetches := s.fetches + 1 }.record c.bound
    (s.source.fetch c.entity c.year c.version)).2
  unfold Service.compute
  dsimp only
  split
  · rw [tower_land, hreleased]
    rfl
  · rw [tower_land, tower_record, hreleased]
    rfl

theorem tower_fetch (c : Computation) : (s.fetch c).tower = s.tower.fetch c.flight := by
  unfold Service.fetch Tower.fetch
  have hhold : s.tower.hold = s.hold := rfl
  rw [hhold]
  split
  · rfl
  · exact tower_compute c

theorem tower_takeOff (c : Computation) : (s.takeOff c).tower = s.tower.takeOff c.flight := by
  have hslots : s.tower.slots = s.slots := rfl
  unfold Service.takeOff Tower.takeOff Slots.acquire
  rw [hslots]
  cases s.slots.isBusy with
  | true => rfl
  | false => exact tower_fetch (s := { s with slots := _ }) c

theorem tower_useGranted (c : Computation) :
    (s.useGranted c).tower = s.tower.useGranted c.flight := by
  unfold Service.useGranted
  dsimp only
  rw [tower_fetch]
  exact congrArg (·.fetch c.flight) (tower_grant _)

/-- What a turn does to the tower. -/
theorem tower_perform (turn : Turn) : s.tower.Moves turn (s.perform turn).tower := by
  have htask : ∀ (n : Nat) (next : Task → Service), turn.flight? = none →
      (∀ t, (next t).tower = s.tower ∨ (next t).tower = s.tower.launch) →
        s.tower.Moves turn (s.withTask n next).tower := by
    intro n next hnone hnext
    refine withTask_of (P := fun s' => s.tower.Moves turn s'.tower) (fun _ => .leave hnone)
      fun t _ _ => ?_
    rcases hnext t with heq | heq <;> rw [heq]
    · exact .leave hnone
    · exact .launch hnone
  have hcomputation : ∀ (n : Nat) (next : Computation → Service), turn.flight? = some n →
      (∀ c, c.flight = n → s.tower.Moves turn (next c).tower) →
        s.tower.Moves turn (s.withComputation n next).tower := by
    intro n next hsome hnext
    refine withComputation_of (P := fun s' => s.tower.Moves turn s'.tower)
      (fun hgone => .lose hsome fun hmem => ?_) fun c _ => hnext c
    obtain ⟨c, hc, hnumber⟩ := List.mem_map.mp hmem
    exact hgone c hc hnumber
  cases turn with
  | call c =>
    rcases tower_takeUp (s := s) c with heq | heq
    · exact heq.symm ▸ .leave rfl
    · exact heq.symm ▸ .launch rfl
  | begin n => exact htask n _ rfl tower_begin
  | takeOff n =>
    refine hcomputation n _ rfl ?_
    rintro c rfl
    rw [tower_takeOff]
    exact .takeOff _
  | granted n =>
    refine hcomputation n _ rfl ?_
    rintro c rfl
    rw [tower_useGranted]
    exact .useGranted _
  | fetched n =>
    refine hcomputation n _ rfl ?_
    rintro c rfl
    rw [tower_compute]
    exact .compute _
  | deliver n x =>
    exact htask n _ rfl fun _ => .inl (tower_enqueue (by simp [Turn.flight?]))
  | resume n x => exact htask n _ rfl fun t => .inl (tower_conclude t _)
  | report n place x => exact htask n _ rfl fun t => .inl (tower_collect t place x)
  | wake n failure => exact htask n _ rfl fun t => .inl (tower_goOn t failure)

/-! ### Runs -/

variable {limit : Nat}

theorem orderly_perform {turn : Turn}
    (h : { s with ready := turn :: s.ready }.tower.Orderly limit []) :
    (s.perform turn).tower.Orderly limit [] := by
  refine Tower.Orderly.move (tower_perform turn) ?_ fun x hx => (List.mem_filter.mp hx).2
  have hturns : (turn :: s.tower.turns).filter (·.flight?.isSome) =
      (turn :: s.ready).filter (·.flight?.isSome) := by
    unfold tower
    simp only [List.filter_cons, List.filter_filter, Bool.and_self]
  rw [hturns]
  exact h

theorem orderly_take (h : s.tower.Orderly limit []) (place : Nat) :
    (s.take place).tower.Orderly limit [] := by
  unfold Service.take
  split
  · rename_i turn hturn
    obtain ⟨hlt, rfl⟩ := List.getElem?_eq_some_iff.mp hturn
    exact orderly_perform (h.perm ((List.getElem_cons_eraseIdx_perm hlt).filter _))
  · exact h

/-- What happens besides the turns leaves the tower alone, lets fetches be held
    or lets one go on. -/
theorem tower_step {e : Event} (h : ∀ place, e ≠ .take place) :
    s.tower.Drifts (s.step e).tower := by
  cases e with
  | take place => exact absurd rfl (h place)
  | call c =>
    have hsame : (s.submit [c]).tower = s.tower := tower_enqueue (by simp [Turn.flight?])
    exact hsame ▸ .stay
  | cancel caller =>
    have hsame : (s.cancel caller).tower = s.tower := by
      have hready : (s.ready.filter fun turn => !turn.isCallOf caller).filter (·.flight?.isSome) =
          s.ready.filter (·.flight?.isSome) := by
        rw [List.filter_filter]
        refine List.filter_congr fun turn _ => ?_
        cases turn <;> simp [Turn.flight?, Turn.isCallOf]
      show { (s.abandon _).tower with
        turns := (s.ready.filter fun (turn : Turn) => !turn.isCallOf caller).filter
          (·.flight?.isSome) } = _
      rw [tower_abandon, hready]
      rfl
    exact hsame ▸ .stay
  | hold isHeld => exact .hold isHeld
  | letGo entity year version =>
    rcases s.letGo_cases entity year version with heq | ⟨flight, hflight, heq⟩ <;> rw [heq]
    · exact .stay
    · have hgone : (s.letFlightGo flight).tower = s.tower.letGo flight := by
        unfold letFlightGo enqueue tower Tower.letGo
        simp only [List.filter_append]
        rfl
      rw [hgone]
      exact .letGo hflight
  | addLedger l =>
    obtain ⟨source, heq⟩ := s.exists_addLedger_eq l
    exact heq ▸ .stay
  | save d =>
    obtain ⟨registry, journal, heq, -⟩ := s.exists_save_eq d
    exact heq ▸ .stay
  | evict | invalidate | clear | clock => exact .stay

/-- Whatever happens, no flight is lost, and no slot. -/
theorem orderly_step (h : s.tower.Orderly limit []) (e : Event) :
    (s.step e).tower.Orderly limit [] := by
  by_cases htake : ∃ place, e = .take place
  · obtain ⟨place, rfl⟩ := htake
    exact orderly_take h place
  · exact h.drift (tower_step fun place he => htake ⟨place, he⟩)

theorem orderly_run (events : List Event) (h : s.tower.Orderly limit []) :
    (s.run events).tower.Orderly limit [] := by
  induction events generalizing s with
  | nil => exact h
  | cons e events ih => exact ih (orderly_step h e)

/-- With no turn left and no fetch that is waited for, nothing is computed. -/
theorem computations_eq_nil (h : s.tower.Orderly limit []) (hlimit : 1 ≤ limit)
    (hready : s.ready = []) (hfetching : s.fetching = []) : s.computations = [] := by
  have hturns : s.tower.turns = [] := by
    unfold tower
    rw [hready]
    rfl
  exact List.map_eq_nil_iff.mp (h.at_rest hlimit hturns hfetching).1

theorem computations_eq_nil_of_unhindered (h : s.tower.Orderly limit [])
    (hfree : s.tower.Unhindered) (hready : s.ready = []) : s.computations = [] := by
  refine computations_eq_nil h ?_ hready hfree.fetching
  have hslots := h.slots
  have hpos := hfree.free
  omega

theorem orderly_start (registry : Registry) (source : LedgerSource) (settings : Settings)
    (given : Option (SharedCache Nat)) (now : Except TimeFault Moment)
    (requestId : Nat → String) :
    (start registry source settings given now requestId).tower.Orderly settings.concurrencyLimit []
    where
  places := .refl _
  numbers := List.nodup_nil
  fresh := nofun
  granted := .refl _
  slots := rfl
  waits := fun hqueue => absurd rfl hqueue

end Service

end KeyFigures
