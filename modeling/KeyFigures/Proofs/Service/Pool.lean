/-
  KeyFigures/Proofs/Service/Pool.lean
  ===================================
  **Services over one cache.**

  A pool is a cache together with the services that were built over it and work
  on it.  Its members step in any order; each steps on the cache as the others
  left it, numbers its tasks on from theirs, and tells the others what the cache
  answered.  Somebody who is no service may use the cache too.

  Whatever the members and the others do, the cache of the pool goes through the
  events of one shared cache (`Pool.Accounted.run`), and the members keep their
  accounts with what it tells.
-/
import KeyFigures.Proofs.Service.Accounts

namespace KeyFigures

/-- Takes in what the cache told the tasks of a service. -/
def Service.hear (s : Service) (answers : List (SharedCache.Answer Nat)) : Service :=
  s.enqueue ((answers.filter fun a => (s.task? a.caller).isSome).map fun a =>
    .deliver a.caller a.outcome)

/-- A cache and the services that work on it. -/
structure Pool where
  cache : SharedCache Nat
  /-- The number of the next task of any member. -/
  nextTask : Nat
  /-- Whoever is no service asks the cache with a number below this one. -/
  first : Nat
  members : List Service := []

namespace Pool

/-- What can happen to a pool. -/
inductive Event where
  /-- A service is built over the cache. -/
  | build (registry : Registry) (source : LedgerSource) (settings : Settings)
      (now : Except TimeFault Moment) (requestId : Nat → String)
  /-- Something happens to the member in that place. -/
  | member (place : Nat) (e : Service.Event)
  /-- Somebody who is no service does something with the cache. -/
  | outside (e : SharedCache.Event Nat)

def ofCache (cache : SharedCache Nat) (first : Nat) : Pool where
  cache := cache
  nextTask := first
  first := first

/-- A member with the cache and the numbers as the others left them. -/
def enter (p : Pool) (s : Service) : Service := { s with cache := p.cache, nextTask := p.nextTask }

def tell (p : Pool) (answers : List (SharedCache.Answer Nat)) : Pool :=
  { p with members := p.members.map (·.hear answers) }

/-- What somebody who is no service can do: ask with a number of his own, and end
    the flights that no member computes. -/
def permits (p : Pool) : SharedCache.Event Nat → Bool
  | .request n _ | .leave n => n < p.first
  | .land n _ => !p.members.any fun s => (s.computation? n).isSome
  | _ => true

/-- What an event does to the cache. -/
def cacheEvents (p : Pool) : Event → List (SharedCache.Event Nat)
  | .build .. => []
  | .member place e => ((p.members[place]?).map fun s => (p.enter s).cacheEvents e).getD []
  | .outside e => if p.permits e then [e] else []

/-- A service that is given a cache without results has one of its own, and is
    no member. -/
def step (p : Pool) : Event → Pool
  | .build registry source settings now requestId =>
    let s := Service.start registry source settings (some p.cache) now requestId
    if s.ownCache then p else { p with members := p.members ++ [s] }
  | .member place e =>
    match p.members[place]? with
    | none => p
    | some s =>
      let s' := (p.enter s).step e
      let others := (p.tell (p.cache.run ((p.enter s).cacheEvents e)).2).members
      { p with cache := s'.cache, nextTask := s'.nextTask, members := others.set place s' }
  | .outside e =>
    if p.permits e then { p.tell (p.cache.step e).2 with cache := (p.cache.step e).1 } else p

def run (p : Pool) (events : List Event) : Pool := events.foldl step p

/-- What a run does to the cache. -/
def cacheTrace (p : Pool) : List Event → List (SharedCache.Event Nat)
  | [] => []
  | e :: rest => p.cacheEvents e ++ (p.step e).cacheTrace rest

/-- A member takes up a call in a run, with its registry of that moment. -/
def TakesUp (p : Pool) (events : List Event) (c : Call) (r : Registry) : Prop :=
  ∃ before place i after s, events = before ++ .member i (.take place) :: after ∧
    (p.run before).members[i]? = some s ∧ s.ready[place]? = some (.call c) ∧ s.registry = r

theorem run_append (p : Pool) (before after : List Event) :
    p.run (before ++ after) = (p.run before).run after := List.foldl_append

/-! ### The accounts of a pool -/

/-- The cache of a pool is a traced one, and each member keeps its accounts with
    what the cache tells. -/
structure Accounted (b : Books) (h : History) (w : TracedCache Nat) (p : Pool) : Prop where
  first : b.first = p.first
  inv : w.Inv
  shared : w.shared = p.cache
  waits : w.WaitedFor b h
  computations : ∀ s ∈ p.members, ∀ c ∈ s.computations, c.Started w
  history : h.Accounted b
  next : p.nextTask = h.errands.length
  members : ∀ s ∈ p.members, (p.enter s).Accounted b h

variable {b : Books} {h : History} {w : TracedCache Nat} {p : Pool}

theorem Accounted.traced {s : Service} (hp : p.Accounted b h w) (hs : s ∈ p.members) :
    (p.enter s).Traced b h w :=
  ⟨hp.inv, hp.shared, hp.waits, hp.computations s hs⟩

theorem hear_accounted {s : Service} {answers : List (SharedCache.Answer Nat)}
    (hs : s.Accounted b h)
    (hanswers : ∀ a ∈ answers, b.first ≤ a.caller → b.Heard h a.caller a.outcome) :
    (s.hear answers).Accounted b h := by
  refine hs.enqueue_all fun turn hturn => ?_
  obtain ⟨a, ha, rfl⟩ := List.mem_map.mp hturn
  exact ⟨hanswers a (List.mem_of_mem_filter ha), by simp [Turn.holds], nofun⟩

/-- The tasks are told what the cache answers in a traced run. -/
theorem heard_of_run {es : List (SharedCache.Event Nat)} (hw : w.Inv)
    (hasks : ∀ d ∈ (w.run es).2, b.Asks h d.caller d.key)
    (htold : ∀ d ∈ (w.run es).2, b.told d.caller d.key d.outcome) :
    ∀ a ∈ (w.shared.run es).2, b.first ≤ a.caller → b.Heard h a.caller a.outcome := by
  intro a ha hfirst
  rw [← hw.run_answers] at ha
  obtain ⟨d, hd, rfl⟩ := List.mem_map.mp ha
  exact (hasks d hd).heard hfirst (htold d hd)

/-- A member keeps its accounts while others go on. -/
theorem Accounted.others {h' : History} {s : Service} {answers : List (SharedCache.Answer Nat)}
    (hp : p.Accounted b h w) (hs : s ∈ p.members) (hg : h.Grows h') (hh : h'.Accounted b)
    (hanswers : ∀ a ∈ answers, b.first ≤ a.caller → b.Heard h' a.caller a.outcome)
    (cache : SharedCache Nat) :
    { s.hear answers with cache := cache, nextTask := h'.errands.length }.Accounted b h' := by
  have hgrown := ((hp.members s hs).grow hg hh).withCache cache
  exact hear_accounted hgrown hanswers

theorem Accounted.member {place : Nat} {s : Service} {e : Service.Event}
    (hp : p.Accounted b h w) (hs : p.members[place]? = some s)
    (hcall : ∀ i c, e = .take i → s.ready[i]? = some (.call c) → b.taken c s.registry)
    (htold : ∀ d ∈ (w.run ((p.enter s).cacheEvents e)).2, b.told d.caller d.key d.outcome) :
    ∃ h', h.Grows h' ∧
      (p.step (.member place e)).Accounted b h' (w.run ((p.enter s).cacheEvents e)).1 ∧
      ∀ d ∈ (w.run ((p.enter s).cacheEvents e)).2, b.Asks h' d.caller d.key := by
  have hmem := List.mem_of_getElem? hs
  obtain ⟨h', hg, hs', hw', hasks⟩ :=
    (hp.members s hmem).step (hp.traced hmem) e hcall htold
  have hanswers := heard_of_run hp.inv hasks htold
  rw [hp.shared] at hanswers
  refine ⟨h', hg, ?_, hasks⟩
  simp only [step, hs]
  refine ⟨hp.first, hw'.inv, hw'.shared, hw'.waits, ?_, hs'.history, hs'.next, ?_⟩ <;>
    intro s₂ hs₂ <;> rcases List.mem_or_eq_of_mem_set hs₂ with hold | rfl
  · obtain ⟨s₁, hs₁, rfl⟩ := List.mem_map.mp hold
    exact fun c hc => (hp.computations s₁ hs₁ c hc).run _
  · exact hw'.computations
  · obtain ⟨s₁, hs₁, rfl⟩ := List.mem_map.mp hold
    have hothers := hp.others hs₁ hg hs'.history hanswers ((p.enter s).step e).cache
    rw [← hs'.next] at hothers
    exact hothers
  · exact hs'

theorem Accounted.outside {e : SharedCache.Event Nat} (hp : p.Accounted b h w)
    (hpermits : p.permits e) (htold : ∀ d ∈ (w.run [e]).2, b.told d.caller d.key d.outcome) :
    (p.step (.outside e)).Accounted b h (w.run [e]).1 ∧
      ∀ d ∈ (w.run [e]).2, b.Asks h d.caller d.key := by
  -- who asks from outside is no task
  have hasks : ∀ n key, .request n key ∈ [e] → b.Asks h n key := by
    intro n key hmem
    obtain rfl := List.mem_singleton.mp hmem
    have hlt : n < p.first := by simpa [permits] using hpermits
    rw [← hp.first] at hlt
    exact ⟨Nat.lt_of_lt_of_le hlt hp.history.first, fun hle => absurd hlt (Nat.not_lt.mpr hle)⟩
  obtain ⟨hwaits, hdelivered⟩ := hp.waits.run hasks
  have hanswers := heard_of_run hp.inv hdelivered htold
  refine ⟨?_, hdelivered⟩
  simp only [step, hpermits, if_true]
  refine ⟨hp.first, hp.inv.run _, ?_, hwaits, ?_, hp.history, hp.next, ?_⟩
  · rw [TracedCache.run_shared, hp.shared]
    rfl
  · intro s₂ hs₂
    obtain ⟨s₁, hs₁, rfl⟩ := List.mem_map.mp hs₂
    exact fun c hc => (hp.computations s₁ hs₁ c hc).run _
  · intro s₂ hs₂
    obtain ⟨s₁, hs₁, rfl⟩ := List.mem_map.mp hs₂
    have hanswers' : ∀ a ∈ (p.cache.step e).2, b.first ≤ a.caller → b.Heard h a.caller a.outcome := by
      intro a ha
      refine hanswers a ?_
      rw [hp.shared]
      simpa [SharedCache.run] using ha
    have hothers := hp.others hs₁ (.refl h) hp.history hanswers' (p.cache.step e).1
    rw [← hp.next] at hothers
    exact hothers

/-- Whatever happens to a pool keeps its accounts. -/
theorem Accounted.step (hp : p.Accounted b h w) (e : Event)
    (hcall : ∀ place i s c, e = .member place (.take i) → p.members[place]? = some s →
      s.ready[i]? = some (.call c) → b.taken c s.registry)
    (htold : ∀ d ∈ (w.run (p.cacheEvents e)).2, b.told d.caller d.key d.outcome) :
    ∃ h', h.Grows h' ∧ (p.step e).Accounted b h' (w.run (p.cacheEvents e)).1 ∧
      ∀ d ∈ (w.run (p.cacheEvents e)).2, b.Asks h' d.caller d.key := by
  cases e with
  | build registry source settings now requestId =>
    refine ⟨h, .refl h, ?_, List.forall_mem_nil _⟩
    simp only [Pool.step, cacheEvents]
    split
    · exact hp
    · refine { hp with computations := fun s hs => ?_, members := fun s hs => ?_ } <;>
        rcases List.mem_append.mp hs with hs | hs
      · exact hp.computations s hs
      · obtain rfl := List.mem_singleton.mp hs
        exact List.forall_mem_nil _
      · exact hp.members s hs
      · obtain rfl := List.mem_singleton.mp hs
        exact Service.accounted_of_idle rfl hp.history hp.next rfl rfl rfl
  | member place e =>
    simp only [cacheEvents] at htold ⊢
    cases hs : p.members[place]? with
    | none =>
      refine ⟨h, .refl h, ?_, List.forall_mem_nil _⟩
      simp only [Pool.step, hs]
      exact hp
    | some s =>
      rw [hs] at htold
      exact hp.member hs (fun i c he => hcall place i s c (by rw [he]) hs) htold
  | outside e =>
    simp only [cacheEvents] at htold ⊢
    by_cases hpermits : p.permits e
    · rw [if_pos hpermits] at htold ⊢
      obtain ⟨hstep, hasks⟩ := hp.outside hpermits htold
      exact ⟨h, .refl h, hstep, hasks⟩
    · rw [if_neg hpermits]
      refine ⟨h, .refl h, ?_, List.forall_mem_nil _⟩
      simp only [Pool.step, hpermits]
      exact hp

/-- The cache of a pool goes through the events of one shared cache, and the
    members keep their accounts with what it tells. -/
theorem Accounted.run {events : List Event} (hp : p.Accounted b h w)
    (hcall : ∀ c r, p.TakesUp events c r → b.taken c r)
    (htold : ∀ d ∈ (w.run (p.cacheTrace events)).2, b.told d.caller d.key d.outcome) :
    ∃ h', h.Grows h' ∧ (p.run events).Accounted b h' (w.run (p.cacheTrace events)).1 ∧
      ∀ d ∈ (w.run (p.cacheTrace events)).2, b.Asks h' d.caller d.key := by
  induction events generalizing p h w with
  | nil => exact ⟨h, .refl h, hp, List.forall_mem_nil _⟩
  | cons e events ih =>
    unfold cacheTrace at htold ⊢
    rw [TracedCache.run_append] at htold ⊢
    obtain ⟨h₁, hg₁, hp₁, hasks₁⟩ := hp.step e
      (fun place i s c he hs hready => hcall c s.registry
        ⟨[], i, place, events, s, by rw [he]; rfl, hs, hready, rfl⟩)
      (fun d hd => htold d (List.mem_append_left _ hd))
    obtain ⟨h₂, hg₂, hp₂, hasks₂⟩ := ih hp₁
      (by
        rintro c r ⟨before, i, place, after, s, rfl, hs, hready, hr⟩
        exact hcall c r ⟨e :: before, i, place, after, s, rfl, hs, hready, hr⟩)
      (fun d hd => htold d (List.mem_append_right _ hd))
    refine ⟨h₂, hg₁.trans hg₂, hp₂, fun d hd => ?_⟩
    rcases List.mem_append.mp hd with hd | hd
    · exact (hasks₁ d hd).grow hg₂
    · exact hasks₂ d hd

end Pool

end KeyFigures
