/-
  KeyFigures/Proofs/Service/Steps.lean
  ====================================
  **Small steps of a sound service.**

  A turn is taken out or becomes ready, a task is added, split into parts, given
  up or ended, something is recorded: a sound service stays sound, in a history
  that may have grown.  The turns of a service are put together from these.
-/
import KeyFigures.Proofs.Service.Invariant

namespace KeyFigures

open Log (Recorded)
open Log.Recorded (Steady KeepsSetup)
open Surroundings (Meets)

variable {w : Surroundings} {h h' : History}

/-! ### A longer history -/

theorem Owner.Sound.grow {a : Errand} {o : Owner} (ho : o.Sound w h a) (hg : h.Grows h') :
    o.Sound w h' a := by
  cases o with
  | caller name saved => exact ho
  | task n place =>
    obtain ⟨b, g, hp, hrest⟩ := ho
    exact ⟨b, g, hp.grow hg, hrest⟩

theorem Errand.Sound.grow {a : Errand} (ha : a.Sound w h) (hg : h.Grows h') : a.Sound w h' :=
  ⟨ha.wanted, ha.owner.grow hg⟩

theorem Task.Sound.grow {t : Task} (ht : t.Sound w h) (hg : h.Grows h') : t.Sound w h' :=
  ⟨hg.errand ht.errand_eq, ht.results⟩

theorem Computation.Sound.grow {c : Computation} (hc : c.Sound w h) (hg : h.Grows h') :
    c.Sound w h' :=
  ⟨hg.key hc.route, hc.wanted, hc.key_eq⟩

theorem Flight.Sound.grow {f : Flight Nat} (hf : f.Sound h) (hg : h.Grows h') : f.Sound h' where
  route := hg.key hf.route
  waiting := by
    intro n hn
    obtain ⟨a, entity, year, ha, hlooks⟩ := hf.waiting n hn
    exact ⟨a, entity, year, hg.errand ha, hlooks⟩

theorem Turn.Sound.grow {turn : Turn} (ht : turn.Sound w h) (hg : h.Grows h') :
    turn.Sound w h' := by
  cases turn with
  | call | takeOff | granted | fetched => trivial
  | begin n =>
    obtain ⟨a, ha⟩ := ht
    exact ⟨a, hg.errand ha⟩
  | deliver n x =>
    obtain ⟨a, entity, year, ha, hrest⟩ := ht
    exact ⟨a, entity, year, hg.errand ha, hrest⟩
  | resume n x =>
    obtain ⟨a, entity, year, ha, hrest⟩ := ht
    exact ⟨a, entity, year, hg.errand ha, hrest⟩
  | report n place x =>
    obtain ⟨a, g, hp, hrest⟩ := ht
    exact ⟨a, g, hp.grow hg, hrest⟩
  | wake n failure =>
    cases failure with
    | none =>
      obtain ⟨a, ha, hrest⟩ := ht
      exact ⟨a, hg.errand ha, hrest⟩
    | some f =>
      obtain ⟨a, g, place, hp, hrest⟩ := ht
      exact ⟨a, g, place, hp.grow hg, hrest⟩

/-- The cache is sound in a history with more errands and the same keys. -/
theorem SharedCache.Sound.grow {c : SharedCache Nat} (hc : c.Sound w h) (hg : h.Grows h')
    (hkeys : h'.keys = h.keys) : c.Sound w h' where
  entries := hc.entries
  misses := hkeys ▸ hc.misses
  registered := fun r hr => hg.key (hc.registered r hr)
  flights := fun f hf => (hc.flights f hf).grow hg
  clock := hc.clock

namespace Service

variable {s : Service} {t : Task}

/-! ### Accounts -/

theorem sum_filter_le {α : Type} (f : α → Nat) (q : α → Bool) (xs : List α) :
    ((xs.filter q).map f).sum ≤ (xs.map f).sum :=
  (List.filter_sublist.map f).sum_le_sum (by simp)

theorem sum_filter_add_le {α : Type} {f : α → Nat} {q : α → Bool} {x : α} {xs : List α}
    (hx : x ∈ xs) (hq : q x = false) : ((xs.filter q).map f).sum + f x ≤ (xs.map f).sum := by
  induction xs with
  | nil => cases hx
  | cons y xs ih =>
    rcases List.mem_cons.mp hx with rfl | hx
    · have := sum_filter_le f q xs
      simp only [List.filter_cons, hq, List.map_cons, List.sum_cons, Bool.false_eq_true, if_false]
      omega
    · have := ih hx
      cases hy : q y <;>
        simp only [List.filter_cons, hy, List.map_cons, List.sum_cons, Bool.false_eq_true, if_false,
          if_true] <;> omega

theorem held_take {place : Nat} {turn : Turn} (hready : s.ready[place]? = some turn)
    (n p : Nat) : s.held n p =
      { s with ready := s.ready.eraseIdx place }.held n p + if turn.holds n p then 1 else 0 := by
  obtain ⟨hlt, rfl⟩ := List.getElem?_eq_some_iff.mp hready
  have hperm := List.getElem_cons_eraseIdx_perm hlt
  have hcount := hperm.countP_eq (·.holds n p)
  rw [List.countP_cons] at hcount
  unfold held
  dsimp only
  omega

theorem held_enqueue (turn : Turn) (n p : Nat) :
    (s.enqueue [turn]).held n p = s.held n p + if turn.holds n p then 1 else 0 := by
  unfold held enqueue
  simp only [List.countP_append, List.countP_singleton]
  omega

theorem held_le_of_sublist {ready : List Turn} {tasks : List Task} (hready : ready.Sublist s.ready)
    (htasks : tasks.Sublist s.tasks) (n p : Nat) :
    { s with ready := ready, tasks := tasks }.held n p ≤ s.held n p := by
  have hsum : (tasks.map (·.holds n p)).sum ≤ (s.tasks.map (·.holds n p)).sum :=
    (htasks.map _).sum_le_sum (by simp)
  have hcount := hready.countP_le (p := (·.holds n p))
  unfold held
  dsimp only
  omega

/-- Nothing stands for the parts of a task that is not there yet. -/
theorem Sound.held_fresh (hs : s.Sound w h) {n : Nat} (hn : h.errands.length ≤ n) (p : Nat) :
    s.held n p = 0 := by
  have hnone : ∀ {m : Nat} {a : Errand}, h.errands[m]? = some a → m ≠ n := by
    intro m a ha
    have hlt := (List.getElem?_eq_some_iff.mp ha).1
    omega
  have hready : s.ready.countP (·.holds n p) = 0 := by
    rw [List.countP_eq_zero]
    intro turn hturn
    have hsound := hs.turns turn hturn
    cases turn with
    | begin m =>
      obtain ⟨a, ha⟩ := hsound
      simp [Turn.holds, hnone ha]
    | report m q x =>
      obtain ⟨a, g, hp, -⟩ := hsound
      simp [Turn.holds, hnone hp.errand_eq]
    | _ => simp [Turn.holds]
  have htasks : ∀ t ∈ s.tasks, t.holds n p = 0 := by
    intro t ht
    have herrand := (hs.tasks t ht).errand_eq
    have howner := (hs.history _ (List.mem_of_getElem? herrand)).owner
    unfold Task.holds
    rw [if_neg (hnone herrand)]
    revert howner
    show t.owner.Sound w h t.errand → _
    cases t.owner with
    | caller name saved => exact fun _ => rfl
    | task m q =>
      rintro ⟨b, g, hp, -⟩
      simp [hnone hp.errand_eq]
  have hsum : (s.tasks.map (·.holds n p)).sum = 0 := by
    simpa [List.sum_eq_zero_iff] using htasks
  unfold held
  rw [hready, hsum]

/-! ### Small steps -/

theorem Sound.withCache {cache : SharedCache Nat} (hs : s.Sound w h) (hcache : cache.Sound w h) :
    { s with cache := cache }.Sound w h :=
  { hs with cache := hcache }

theorem Sound.record {α : Type} {work : Recorded α} (hs : s.Sound w h) (context : Log.Context)
    (hwork : KeepsSetup work) : (s.record context work).2.Sound w h :=
  { hs with
    quiet := by
      have hquiet := hs.quiet
      unfold Log.Journal.IsQuiet at hquiet ⊢
      have hsetup : (s.record context work).2.journal.setup = s.journal.setup :=
        hwork { s.journal with context := context }
      rwa [hsetup] }

theorem Sound.record_eq {α : Type} {work : Recorded α} {r : Attempt α} (hs : s.Sound w h)
    (context : Log.Context) (hwork : Steady work r) : (s.record context work).1 = r :=
  hwork.play_eq { s.journal with context := context } hs.quiet

/-- Turns and tasks may be dropped. -/
theorem Sound.thin {ready : List Turn} {tasks : List Task} (hs : s.Sound w h)
    (hready : ready.Sublist s.ready) (htasks : tasks.Sublist s.tasks) :
    { s with ready := ready, tasks := tasks }.Sound w h :=
  { hs with
    tasks := fun t ht => hs.tasks t (htasks.subset ht)
    numbers := hs.numbers.sublist (htasks.map _)
    turns := fun turn hturn => hs.turns turn (hready.subset hturn)
    once := fun n p => (held_le_of_sublist hready htasks n p).trans (hs.once n p)
    complete := fun n hn t ht => hs.complete n (hready.subset hn) t (htasks.subset ht) }

/-- A turn that is ready is taken out. -/
theorem Sound.takeOut {place : Nat} {turn : Turn} (hs : s.Sound w h)
    (hready : s.ready[place]? = some turn) :
    { s with ready := s.ready.eraseIdx place }.Sound w h ∧ turn.Sound w h ∧
      { s with ready := s.ready.eraseIdx place }.Fits turn := by
  have hmem := List.mem_of_getElem? hready
  refine ⟨hs.thin (List.eraseIdx_sublist _ _) (.refl _), hs.turns turn hmem, ?_, ?_⟩
  · intro n p hholds
    have honce := hs.once n p
    rw [held_take hready, if_pos hholds] at honce
    omega
  · rintro n rfl
    exact hs.complete n hmem

theorem Sound.enqueue {turn : Turn} (hs : s.Sound w h) (hturn : turn.Sound w h)
    (hfits : s.Fits turn) : (s.enqueue [turn]).Sound w h :=
  { hs with
    turns := by
      intro x hx
      rcases List.mem_append.mp hx with hx | hx
      · exact hs.turns x hx
      · exact List.mem_singleton.mp hx ▸ hturn
    once := by
      intro n p
      rw [held_enqueue]
      have honce := hs.once n p
      split
      · rename_i hholds
        have := hfits.unheld n p hholds
        omega
      · omega
    complete := by
      intro n hn
      rcases List.mem_append.mp hn with hn | hn
      · exact hs.complete n hn
      · exact hfits.complete n (List.mem_singleton.mp hn).symm }

/-- Turns that ask nothing of the service become ready. -/
theorem Sound.enqueue_all {turns : List Turn} (hs : s.Sound w h)
    (hturns : ∀ turn ∈ turns, turn.Sound w h ∧ (∀ n p, turn.holds n p = false) ∧
      ∀ n, turn ≠ .wake n none) : (s.enqueue turns).Sound w h := by
  induction turns generalizing s with
  | nil =>
    unfold Service.enqueue
    rw [List.append_nil]
    exact hs
  | cons turn turns ih =>
    obtain ⟨⟨hturn, hholds, hwake⟩, hrest⟩ := List.forall_mem_cons.mp hturns
    have hfits : s.Fits turn :=
      ⟨fun n p hn => absurd hn (by simp [hholds]), fun n hn => absurd hn (hwake n)⟩
    have hnext := ih (hs.enqueue hturn hfits) hrest
    have happend : (s.enqueue [turn]).enqueue turns = s.enqueue (turn :: turns) := by
      simp [Service.enqueue]
    rwa [happend] at hnext

theorem Sound.finish {caller : String} {x : Attempt Response} {context : Log.Context}
    (hs : s.Sound w h) (hx : Ending.Sound w ⟨caller, x, context⟩) :
    (s.finish caller x context).Sound w h :=
  { hs with
    endings := by
      intro e he
      rcases List.mem_append.mp he with he | he
      · exact hs.endings e he
      · exact List.mem_singleton.mp he ▸ hx }

/-! ### New tasks -/

theorem held_append (u : Task) (next n p : Nat) :
    { s with tasks := s.tasks ++ [u], nextTask := next }.held n p = s.held n p + u.holds n p := by
  unfold held
  simp only [List.map_append, List.map_cons, List.map_nil, List.sum_append, List.sum_cons,
    List.sum_nil]
  omega

/-- A task is added under the next number. -/
theorem Sound.extend (hs : s.Sound w h) {u : Task} (hnumber : u.number = s.nextTask)
    (hu : u.errand.Sound w h) (hresults : u.results = [])
    (hpart : ∀ n p, u.owner = .task n p → s.held n p = 0) :
    ∃ h', h.Grows h' ∧ h'.errands[u.number]? = some u.errand ∧
      { s with tasks := s.tasks ++ [u], nextTask := s.nextTask + 1 }.Sound w h' ∧
      ∀ p, { s with tasks := s.tasks ++ [u], nextTask := s.nextTask + 1 }.held u.number p = 0 := by
  obtain ⟨h', rfl⟩ : ∃ h' : History, h' = ⟨h.errands ++ [u.errand], h.keys⟩ := ⟨_, rfl⟩
  have hg : h.Grows ⟨h.errands ++ [u.errand], h.keys⟩ :=
    ⟨List.prefix_append _ _, List.prefix_rfl⟩
  have hnumber' : u.number = h.errands.length := hnumber.trans hs.next
  have herrand : (h.errands ++ [u.errand])[u.number]? = some u.errand := by
    rw [hnumber', List.getElem?_concat_length]
  have hholds : ∀ n p, u.holds n p ≠ 0 → u.owner = .task n p := by
    intro n p hne
    unfold Task.holds at hne
    rw [hresults] at hne
    cases howner : u.owner with
    | caller name saved => simp [howner] at hne
    | task m q =>
      simp only [howner, List.countP_nil, ite_self, Nat.add_zero] at hne
      obtain ⟨rfl, rfl⟩ : m = n ∧ q = p := by
        by_contra hneg
        exact hne (if_neg hneg)
      rfl
  refine ⟨_, hg, herrand, ?_, ?_⟩
  · exact { hs with
      history := by
        intro a ha
        rcases List.mem_append.mp ha with ha | ha
        · exact (hs.history a ha).grow hg
        · exact List.mem_singleton.mp ha ▸ hu.grow hg
      next := by
        show s.nextTask + 1 = (h.errands ++ [u.errand]).length
        rw [hs.next, List.length_append]
        rfl
      cache := hs.cache.grow hg rfl
      computations := fun c hc => (hs.computations c hc).grow hg
      tasks := by
        intro t ht
        rcases List.mem_append.mp ht with ht | ht
        · exact (hs.tasks t ht).grow hg
        · obtain rfl := List.mem_singleton.mp ht
          exact ⟨herrand, by simp [hresults]⟩
      numbers := by
        rw [List.map_append, List.nodup_append]
        refine ⟨hs.numbers, by simp, ?_⟩
        intro n hn m hm
        obtain ⟨t, ht, rfl⟩ := List.mem_map.mp hn
        obtain rfl : m = u.number := by simpa using hm
        have hlt := (List.getElem?_eq_some_iff.mp (hs.tasks t ht).errand_eq).1
        omega
      turns := fun turn hturn => (hs.turns turn hturn).grow hg
      once := by
        intro n p
        rw [held_append]
        by_cases hzero : u.holds n p = 0
        · rw [hzero]
          exact hs.once n p
        · have howner := hholds n p hzero
          rw [hpart n p howner]
          unfold Task.holds
          simp [howner, hresults]
      complete := by
        intro n hn t ht
        rcases List.mem_append.mp ht with ht | ht
        · exact hs.complete n hn t ht
        · obtain rfl := List.mem_singleton.mp ht
          obtain ⟨a, ha, -⟩ := hs.turns _ hn
          have hlt := (List.getElem?_eq_some_iff.mp ha).1
          omega }
  · intro p
    rw [held_append, hs.held_fresh (Nat.le_of_eq hnumber'.symm), Nat.zero_add]
    by_contra hne
    have howner := hholds u.number p hne
    obtain ⟨b, g, hp, -⟩ : (Owner.task u.number p).Sound w h u.errand := howner ▸ hu.owner
    have hlt := (List.getElem?_eq_some_iff.mp hp.errand_eq).1
    omega

/-- One part of a task, ready to begin. -/
def addPart (s : Service) (t : Task) (g : Figure) (place : Nat) : Service :=
  { s with
    tasks := s.tasks ++ [{
      number := s.nextTask
      owner := .task t.number place
      formula := t.formula
      version := t.version
      job := .figure g
      context := t.context }]
    ready := s.ready ++ [.begin s.nextTask]
    nextTask := s.nextTask + 1 }

theorem spawn_eq_foldl (s : Service) (t : Task) :
    s.spawn t = t.job.parts.zipIdx.foldl (fun s part => s.addPart t part.1 part.2) s := by
  have hparts : ∀ (gs : List Figure) (base k : Nat) (s : Service), s.nextTask = base + k →
      (gs.zipIdx k).foldl (fun s part => s.addPart t part.1 part.2) s =
        { s with
          tasks := s.tasks ++ (gs.zipIdx k).map fun part =>
            ({ number := base + part.2
               owner := .task t.number part.2
               formula := t.formula
               version := t.version
               job := .figure part.1
               context := t.context } : Task)
          ready := s.ready ++ (gs.zipIdx k).map fun part => .begin (base + part.2)
          nextTask := s.nextTask + gs.length } := by
    intro gs base
    induction gs with
    | nil => intro k s _; simp
    | cons g gs ih =>
      intro k s hnext
      rw [List.zipIdx_cons, List.foldl_cons, ih (k + 1) (s.addPart t g k) (by
        simp only [addPart]
        omega)]
      simp only [addPart, List.map_cons, List.append_assoc, List.singleton_append, hnext,
        List.length_cons, Service.mk.injEq, true_and, and_true]
      omega
  rw [hparts t.job.parts s.nextTask 0 s rfl]
  unfold spawn
  simp [List.map_map, Function.comp_def]

theorem Sound.addPart {g : Figure} {place : Nat} (hs : s.Sound w h)
    (hp : h.HasPart t.number place t.errand g) (hfree : s.held t.number place = 0) :
    ∃ h', h.Grows h' ∧ (s.addPart t g place).Sound w h' := by
  obtain ⟨u, hu⟩ : ∃ u : Task, u = {
      number := s.nextTask
      owner := .task t.number place
      formula := t.formula
      version := t.version
      job := .figure g
      context := t.context } := ⟨_, rfl⟩
  have hwanted := (hs.history _ (List.mem_of_getElem? hp.errand_eq)).wanted
  have herrand : u.errand.Sound w h := by
    subst hu
    exact ⟨.part hwanted (List.mem_of_getElem? hp.part_eq), t.errand, g, hp, rfl, rfl, rfl⟩
  obtain ⟨h', hg, hnumber, hsound, hheld⟩ := hs.extend (u := u) (by rw [hu]) herrand (by rw [hu]) (by
    rw [hu]
    rintro n p ⟨⟩
    exact hfree)
  refine ⟨h', hg, ?_⟩
  have hturn : (Turn.begin u.number).Sound w h' := ⟨_, hnumber⟩
  have hnext := hsound.enqueue hturn ⟨?_, by simp⟩
  · subst hu
    exact hnext
  · intro n p hholds
    obtain rfl : u.number = n := by simpa [Turn.holds] using hholds
    exact hheld p

theorem held_addPart {g : Figure} {place p : Nat} (hnumber : t.number ≠ s.nextTask)
    (hp : p ≠ place) : (s.addPart t g place).held t.number p = s.held t.number p := by
  unfold held Service.addPart Task.holds
  simp [Turn.holds, hnumber.symm, hp.symm]

theorem Sound.addParts (gs : List Figure) {k : Nat} (hs : s.Sound w h)
    (hparts : ∀ g place, (g, place) ∈ gs.zipIdx k → h.HasPart t.number place t.errand g)
    (hfree : ∀ place, k ≤ place → s.held t.number place = 0) :
    ∃ h', h.Grows h' ∧
      ((gs.zipIdx k).foldl (fun s part => s.addPart t part.1 part.2) s).Sound w h' := by
  induction gs generalizing s h k with
  | nil => exact ⟨h, ⟨List.prefix_rfl, List.prefix_rfl⟩, hs⟩
  | cons g gs ih =>
    rw [List.zipIdx_cons] at hparts ⊢
    have hp := hparts g k List.mem_cons_self
    have hnumber : t.number ≠ s.nextTask := by
      have hlt := (List.getElem?_eq_some_iff.mp hp.errand_eq).1
      have hnext := hs.next
      omega
    obtain ⟨h₁, hg₁, hs₁⟩ := hs.addPart hp (hfree k (Nat.le_refl k))
    obtain ⟨h₂, hg₂, hs₂⟩ := ih hs₁
      (fun g place hmem => (hparts g place (List.mem_cons_of_mem _ hmem)).grow hg₁)
      (fun place hplace => by
        rw [held_addPart hnumber (by omega)]
        exact hfree place (by omega))
    exact ⟨h₂, ⟨hg₁.errands.trans hg₂.errands, hg₁.keys.trans hg₂.keys⟩, hs₂⟩

/-- A task that nothing stands for yet is split into its parts. -/
theorem Sound.spawn (hs : s.Sound w h) (ht : t ∈ s.tasks) (hcheck : t.job.check = .ok ())
    (hfree : ∀ place, s.held t.number place = 0) : ∃ h', (s.spawn t).Sound w h' := by
  obtain ⟨h', -, hsound⟩ := hs.addParts (t := t) t.job.parts (k := 0)
    (fun g place hmem => ⟨(hs.tasks t ht).errand_eq, hcheck,
      List.mk_mem_zipIdx_iff_getElem?.mp hmem⟩)
    (fun place _ => hfree place)
  exact ⟨h', spawn_eq_foldl s t ▸ hsound⟩

/-! ### Ends of tasks -/

theorem Sound.abandon (hs : s.Sound w h) (dropped : List Task) : (s.abandon dropped).Sound w h := by
  have hcache : ∀ (dropped : List Task) (c : SharedCache Nat), c.Sound w h →
      (dropped.foldl (fun c t => c.leave t.number) c).Sound w h := by
    intro dropped
    induction dropped with
    | nil => exact fun c hc => hc
    | cons u dropped ih =>
      intro c hc
      refine ih _ { hc with flights := ?_ }
      intro f hf
      obtain ⟨f, hmem, rfl⟩ := List.mem_map.mp hf
      have hsound := hc.flights f hmem
      exact ⟨hsound.route, fun n hn => hsound.waiting n (List.mem_filter.mp hn).1⟩
  exact (hs.thin (.refl _) List.filter_sublist).withCache (hcache dropped s.cache hs.cache)

/-- Nothing else stands for the part that a task is. -/
theorem Sound.held_without (hs : s.Sound w h) (ht : t ∈ s.tasks) {n place : Nat}
    (howner : t.owner = .task n place) :
    { s with tasks := s.tasks.filter (·.number != t.number) }.held n place = 0 := by
  have honce := hs.once n place
  have hself : 1 ≤ t.holds n place := by
    unfold Task.holds
    simp [howner]
  have hdrop := sum_filter_add_le (f := (·.holds n place)) (q := (·.number != t.number)) ht
    (by simp)
  unfold held at honce ⊢
  dsimp only
  omega

/-- A task ends with its response, which is what its errand was for. -/
theorem Sound.conclude {x : Attempt Response} (hs : s.Sound w h)
    (herrand : h.errands[t.number]? = some t.errand)
    (hfree : ∀ n place, t.owner = .task n place →
      { s with tasks := s.tasks.filter (·.number != t.number) }.held n place = 0)
    (hx : w.Meets Response.Agrees (t.errand.response w.fetched) x) : (s.conclude t x).Sound w h := by
  have hgone := hs.thin (.refl s.ready) (List.filter_sublist (p := (·.number != t.number)))
  have howner : t.owner.Sound w h t.errand := (hs.history _ (List.mem_of_getElem? herrand)).owner
  unfold Service.conclude
  dsimp only
  cases howns : t.owner with
  | caller name saved =>
    rw [howns] at howner
    obtain ⟨c, r, htaken, hcaller, hversion, hprepared⟩ := howner
    refine hgone.finish ⟨c, r, htaken, hcaller, ?_⟩
    have hresponse : r.response w.fetched c = t.errand.response w.fetched := by
      unfold Registry.response Errand.response
      rw [hprepared, hversion]
      rfl
    rwa [hresponse]
  | task n place =>
    rw [howns] at howner
    obtain ⟨b, g, hp, hformula, hversion, hjob⟩ := howner
    have hfigure : t.errand.response w.fetched =
        (b.formula.figure w.fetched b.version g).map .figure := by
      unfold Errand.response
      rw [hformula, hversion, hjob]
      rfl
    rw [hfigure] at hx
    have hfits : ∀ y, { s with tasks := s.tasks.filter (·.number != t.number) }.Fits
        (.report n place y) := by
      refine fun y => ⟨fun m q hholds => ?_, by simp⟩
      obtain ⟨rfl, rfl⟩ : n = m ∧ place = q := by simpa [Turn.holds] using hholds
      exact hfree n place howns
    have hreport : ∀ y, w.Meets Result.Agrees (b.formula.figure w.fetched b.version g) y →
        ({ s with tasks := s.tasks.filter (·.number != t.number) }.enqueue
          [.report n place y]).Sound w h :=
      fun y hy => hgone.enqueue ⟨b, g, hp, hy⟩ (hfits y)
    rcases x with f | ⟨r | points⟩
    · refine hreport _ ?_
      rcases hx.error with heq | ⟨fault, hshown, rfl⟩
      · refine .inl ?_
        cases hfig : b.formula.figure w.fetched b.version g with
        | ok r =>
          rw [hfig] at heq
          cases heq
        | error e =>
          rw [hfig] at heq
          exact Except.error.inj heq
      · exact .of_fault hshown
    · refine hreport _ (.inl ?_)
      obtain ⟨y, hy, hagrees⟩ := hx.ok
      cases hfig : b.formula.figure w.fetched b.version g with
      | ok r =>
        rw [hfig] at hy
        obtain rfl := Except.ok.inj hy
        cases hagrees with
        | figure hagrees => exact hagrees
      | error e =>
        rw [hfig] at hy
        cases hy
    · exact hgone

theorem Sound.conclude_of_mem {x : Attempt Response} (hs : s.Sound w h) (ht : t ∈ s.tasks)
    (hx : w.Meets Response.Agrees (t.errand.response w.fetched) x) : (s.conclude t x).Sound w h :=
  hs.conclude (hs.tasks t ht).errand_eq (fun _ _ => hs.held_without ht) hx

end Service

end KeyFigures
