/-
  KeyFigures/Proofs/Service/Accounts.lean
  =======================================
  **Every turn keeps the accounts.**

  What a service does with what it was told keeps everything accounted for,
  whatever the source answers and whatever the cache holds.  What the cache tells
  in a turn is taken as it comes: a task that looks up its key is told the answer
  (`Accounted.lookUp`), and the tasks that wait for a flight are told what it
  brings (`Accounted.land`).  `Accounted.step` puts the turns and the other
  events together, and `Accounted.run` follows by induction on the run.
-/
import KeyFigures.Proofs.Service.Calls
import KeyFigures.Proofs.Service.Provenance

namespace KeyFigures.Service

open Log (Recorded)
open Log.Recorded (Steady KeepsSetup)

variable {b : Books} {h : History} {s : Service} {t : Task} {w : TracedCache Nat}

/-! ### Small steps -/

/-- A service with nothing under way has nothing to account for. -/
theorem accounted_of_idle (hquiet : s.journal.IsQuiet) (hh : h.Accounted b)
    (hnext : s.nextTask = h.errands.length) (htasks : s.tasks = []) (hready : s.ready = [])
    (hendings : s.endings = []) : s.Accounted b h where
  quiet := hquiet
  history := hh
  next := hnext
  tasks := by simp [htasks]
  numbers := by simp [htasks]
  turns := by simp [hready]
  once := by simp [held, hready, htasks]
  complete := by simp [hready]
  endings := by simp [hendings]

/-- Nothing stands for the parts of a task that is not there yet. -/
theorem Accounted.held_fresh (hs : s.Accounted b h) {n : Nat}
    (hn : h.errands.length ≤ n) (p : Nat) : s.held n p = 0 := by
  have hnone : ∀ {m : Nat} {a : Errand}, h.errands[m]? = some a → m ≠ n := by
    intro m a ha
    have hlt := (List.getElem?_eq_some_iff.mp ha).1
    omega
  have hready : s.ready.countP (·.holds n p) = 0 := by
    rw [List.countP_eq_zero]
    intro turn hturn
    have haccounted := hs.turns turn hturn
    cases turn with
    | begin m =>
      obtain ⟨a, ha⟩ := haccounted
      simp [Turn.holds, hnone ha]
    | report m q x =>
      obtain ⟨a, g, hp, -⟩ := haccounted
      simp [Turn.holds, hnone hp.errand_eq]
    | _ => simp [Turn.holds]
  have htasks : ∀ t ∈ s.tasks, t.holds n p = 0 := by
    intro t ht
    have haccounted := hs.tasks t ht
    have herrand := haccounted.errand_eq
    have howner := hs.history.owners _ _ haccounted.first herrand
    unfold Task.holds
    rw [if_neg (hnone herrand)]
    revert howner
    show t.owner.Accounted b h t.number t.errand → _
    cases t.owner with
    | caller name saved => exact fun _ => rfl
    | task m q =>
      rintro ⟨-, b, g, hp, -⟩
      simp [hnone hp.errand_eq]
  have hsum : (s.tasks.map (·.holds n p)).sum = 0 := by
    simpa [List.sum_eq_zero_iff] using htasks
  unfold held
  rw [hready, hsum]

theorem Accounted.withCache (hs : s.Accounted b h) (cache : SharedCache Nat) :
    { s with cache := cache }.Accounted b h :=
  { hs with }

theorem Accounted.withSlots (hs : s.Accounted b h) (slots : Slots) :
    { s with slots := slots }.Accounted b h :=
  { hs with }

theorem Accounted.record {α : Type} {work : Recorded α} (hs : s.Accounted b h)
    (context : Log.Context) (hwork : KeepsSetup work) :
    (s.record context work).2.Accounted b h :=
  { hs with
    quiet := quiet_record hs.quiet context hwork }

/-- Turns and tasks may be dropped. -/
theorem Accounted.thin {ready : List Turn} {tasks : List Task} (hs : s.Accounted b h)
    (hready : ready.Sublist s.ready) (htasks : tasks.Sublist s.tasks) :
    { s with ready := ready, tasks := tasks }.Accounted b h :=
  { hs with
    tasks := fun t ht => hs.tasks t (htasks.subset ht)
    numbers := hs.numbers.sublist (htasks.map _)
    turns := fun turn hturn => hs.turns turn (hready.subset hturn)
    once := fun n p => (held_le_of_sublist hready htasks n p).trans (hs.once n p)
    complete := fun n hn t ht => hs.complete n (hready.subset hn) t (htasks.subset ht) }

/-- A turn that is ready is taken out. -/
theorem Accounted.takeOut {place : Nat} {turn : Turn} (hs : s.Accounted b h)
    (hready : s.ready[place]? = some turn) :
    { s with ready := s.ready.eraseIdx place }.Accounted b h ∧ turn.Accounted b h ∧
      { s with ready := s.ready.eraseIdx place }.Fits turn := by
  have hmem := List.mem_of_getElem? hready
  refine ⟨hs.thin (List.eraseIdx_sublist _ _) (.refl _), hs.turns turn hmem, ?_, ?_⟩
  · intro n p hholds
    have honce := hs.once n p
    rw [held_take hready, if_pos hholds] at honce
    omega
  · rintro n rfl
    exact hs.complete n hmem

theorem Accounted.enqueue {turn : Turn} (hs : s.Accounted b h)
    (hturn : turn.Accounted b h) (hfits : s.Fits turn) :
    (s.enqueue [turn]).Accounted b h :=
  { hs with
    turns := by
      intro x hx
      rcases List.mem_append.mp hx with hx | hx
      · exact hs.turns x hx
      · exact List.mem_singleton.mp hx ▸ hturn
    once := by
      intro n p
      rw [held_enqueue]
      have honce := hs.once n p
      split
      · rename_i hholds
        have := hfits.unheld n p hholds
        omega
      · omega
    complete := by
      intro n hn
      rcases List.mem_append.mp hn with hn | hn
      · exact hs.complete n hn
      · exact hfits.complete n (List.mem_singleton.mp hn).symm }

/-- Turns that ask nothing of the service become ready. -/
theorem Accounted.enqueue_all {turns : List Turn} (hs : s.Accounted b h)
    (hturns : ∀ turn ∈ turns, turn.Accounted b h ∧ (∀ n p, turn.holds n p = false) ∧
      ∀ n, turn ≠ .wake n none) : (s.enqueue turns).Accounted b h := by
  induction turns generalizing s with
  | nil =>
    unfold Service.enqueue
    rw [List.append_nil]
    exact hs
  | cons turn turns ih =>
    obtain ⟨⟨hturn, hholds, hwake⟩, hrest⟩ := List.forall_mem_cons.mp hturns
    have hfits : s.Fits turn :=
      ⟨fun n p hn => absurd hn (by simp [hholds]), fun n hn => absurd hn (hwake n)⟩
    have hnext := ih (hs.enqueue hturn hfits) hrest
    have happend : (s.enqueue [turn]).enqueue turns = s.enqueue (turn :: turns) := by
      simp [Service.enqueue]
    rwa [happend] at hnext

theorem Accounted.finish {e : Ending} (hs : s.Accounted b h)
    (he : e.Accounted b h) :
    (s.finish e.caller e.outcome e.context).Accounted b h :=
  { hs with
    endings := by
      intro e' he'
      rcases List.mem_append.mp he' with he' | he'
      · exact hs.endings e' he'
      · exact List.mem_singleton.mp he' ▸ he }

/-! ### New tasks -/

/-- A task is added under the next number. -/
theorem Accounted.extend (hs : s.Accounted b h) {u : Task}
    (hnumber : u.number = s.nextTask) (howner : u.owner.Accounted b h u.number u.errand)
    (hresults : u.results = []) (hpart : ∀ n p, u.owner = .task n p → s.held n p = 0) :
    ∃ h', h.Grows h' ∧ h'.errands[u.number]? = some u.errand ∧
      { s with tasks := s.tasks ++ [u], nextTask := s.nextTask + 1 }.Accounted b h' ∧
      ∀ p, { s with tasks := s.tasks ++ [u], nextTask := s.nextTask + 1 }.held u.number p = 0 := by
  have hg : h.Grows ⟨h.errands ++ [u.errand], h.keys⟩ :=
    ⟨List.prefix_append _ _, List.prefix_rfl⟩
  have hnumber' : u.number = h.errands.length := hnumber.trans hs.next
  have herrand : (h.errands ++ [u.errand])[u.number]? = some u.errand := by
    rw [hnumber', List.getElem?_concat_length]
  have hfirst : b.first ≤ u.number := hnumber' ▸ hs.history.first
  have hhistory : History.Accounted b ⟨h.errands ++ [u.errand], h.keys⟩ := by
    refine ⟨hs.history.first.trans hg.errands.length_le, fun n a hn ha => ?_⟩
    rcases Nat.lt_or_ge n h.errands.length with hlt | hge
    · have hold : h.errands[n]? = some a := by
        rwa [List.getElem?_append_left hlt] at ha
      exact (hs.history.owners n a hn hold).grow hg
    · have hn : n = u.number := by
        have hlt := (List.getElem?_eq_some_iff.mp ha).1
        rw [List.length_append, List.length_singleton] at hlt
        omega
      subst hn
      obtain rfl := Option.some.inj (herrand.symm.trans ha)
      exact howner.grow hg
  have hgrown := hs.grow hg hhistory
  have hholds : ∀ n p, u.holds n p ≠ 0 → u.owner = .task n p := by
    intro n p hne
    unfold Task.holds at hne
    rw [hresults] at hne
    cases howner : u.owner with
    | caller name saved => simp [howner] at hne
    | task m q =>
      simp only [howner, List.countP_nil, ite_self, Nat.add_zero] at hne
      obtain ⟨rfl, rfl⟩ : m = n ∧ q = p := by
        by_contra hneg
        exact hne (if_neg hneg)
      rfl
  refine ⟨_, hg, herrand, ?_, ?_⟩
  · exact { hgrown with
      next := by
        show s.nextTask + 1 = (h.errands ++ [u.errand]).length
        rw [hs.next, List.length_append]
        rfl
      tasks := by
        intro t ht
        rcases List.mem_append.mp ht with ht | ht
        · exact hgrown.tasks t ht
        · obtain rfl := List.mem_singleton.mp ht
          exact ⟨hfirst, herrand, by simp [hresults]⟩
      numbers := by
        rw [List.map_append, List.nodup_append]
        refine ⟨hs.numbers, by simp, ?_⟩
        intro n hn m hm
        obtain ⟨t, ht, rfl⟩ := List.mem_map.mp hn
        obtain rfl : m = u.number := by simpa using hm
        have hlt := (List.getElem?_eq_some_iff.mp (hs.tasks t ht).errand_eq).1
        omega
      once := by
        intro n p
        rw [held_append]
        by_cases hzero : u.holds n p = 0
        · rw [hzero]
          exact hs.once n p
        · have howner := hholds n p hzero
          rw [hpart n p howner]
          unfold Task.holds
          simp [howner, hresults]
      complete := by
        intro n hn t ht
        rcases List.mem_append.mp ht with ht | ht
        · exact hs.complete n hn t ht
        · obtain rfl := List.mem_singleton.mp ht
          obtain ⟨a, ha, -⟩ := hs.turns _ hn
          have hlt := (List.getElem?_eq_some_iff.mp ha).1
          omega }
  · intro p
    rw [held_append, hs.held_fresh (Nat.le_of_eq hnumber'.symm), Nat.zero_add]
    by_contra hne
    have hself := hholds u.number p hne
    rw [hself] at howner
    exact absurd howner.1 (Nat.lt_irrefl _)

theorem Accounted.addPart {g : Figure} {place : Nat} (hs : s.Accounted b h)
    (hp : h.HasPart t.number place t.errand g) (hfree : s.held t.number place = 0) :
    ∃ h', h.Grows h' ∧ (s.addPart t g place).Accounted b h' := by
  obtain ⟨u, hu⟩ : ∃ u : Task, u = {
      number := s.nextTask
      owner := .task t.number place
      formula := t.formula
      version := t.version
      job := .figure g
      context := t.context } := ⟨_, rfl⟩
  have howner : u.owner.Accounted b h u.number u.errand := by
    subst hu
    have hlt := (List.getElem?_eq_some_iff.mp hp.errand_eq).1
    exact ⟨hs.next ▸ hlt, t.errand, g, hp, rfl, rfl, rfl⟩
  obtain ⟨h', hg, hnumber, haccounted, hheld⟩ := hs.extend (u := u) (by rw [hu]) howner
    (by rw [hu]) (by
      rw [hu]
      rintro n p ⟨⟩
      exact hfree)
  refine ⟨h', hg, ?_⟩
  have hturn : (Turn.begin u.number).Accounted b h' := ⟨_, hnumber⟩
  have hnext := haccounted.enqueue hturn ⟨?_, by simp⟩
  · subst hu
    exact hnext
  · intro n p hholds
    obtain rfl : u.number = n := by simpa [Turn.holds] using hholds
    exact hheld p

theorem Accounted.addParts (gs : List Figure) {k : Nat} (hs : s.Accounted b h)
    (hparts : ∀ g place, (g, place) ∈ gs.zipIdx k → h.HasPart t.number place t.errand g)
    (hfree : ∀ place, k ≤ place → s.held t.number place = 0) :
    ∃ h', h.Grows h' ∧
      ((gs.zipIdx k).foldl (fun s part => s.addPart t part.1 part.2) s).Accounted b h' := by
  induction gs generalizing s h k with
  | nil => exact ⟨h, ⟨List.prefix_rfl, List.prefix_rfl⟩, hs⟩
  | cons g gs ih =>
    rw [List.zipIdx_cons] at hparts ⊢
    have hp := hparts g k List.mem_cons_self
    have hnumber : t.number ≠ s.nextTask := by
      have hlt := (List.getElem?_eq_some_iff.mp hp.errand_eq).1
      have hnext := hs.next
      omega
    obtain ⟨h₁, hg₁, hs₁⟩ := hs.addPart hp (hfree k (Nat.le_refl k))
    obtain ⟨h₂, hg₂, hs₂⟩ := ih hs₁
      (fun g place hmem => (hparts g place (List.mem_cons_of_mem _ hmem)).grow hg₁)
      (fun place hplace => by
        rw [held_addPart hnumber (by omega)]
        exact hfree place (by omega))
    exact ⟨h₂, ⟨hg₁.errands.trans hg₂.errands, hg₁.keys.trans hg₂.keys⟩, hs₂⟩

/-- A task that nothing stands for yet is split into its parts. -/
theorem Accounted.spawn (hs : s.Accounted b h) (ht : t ∈ s.tasks)
    (hcheck : t.job.check = .ok ()) (hfree : ∀ place, s.held t.number place = 0) :
    ∃ h', h.Grows h' ∧ (s.spawn t).Accounted b h' := by
  have hadded := hs.addParts (t := t) t.job.parts (k := 0)
    (fun g place hmem => ⟨(hs.tasks t ht).errand_eq, hcheck,
      List.mk_mem_zipIdx_iff_getElem?.mp hmem⟩)
    (fun place _ => hfree place)
  rwa [← spawn_eq_foldl] at hadded

/-! ### Ends of tasks -/

theorem Accounted.abandon (hs : s.Accounted b h) (dropped : List Task) :
    (s.abandon dropped).Accounted b h :=
  (hs.thin (.refl _) List.filter_sublist).withCache _

/-- Nothing else stands for the part that a task is. -/
theorem Accounted.held_without (hs : s.Accounted b h) (ht : t ∈ s.tasks)
    {n place : Nat} (howner : t.owner = .task n place) :
    { s with tasks := s.tasks.filter (·.number != t.number) }.held n place = 0 := by
  have honce := hs.once n place
  have hself : 1 ≤ t.holds n place := by
    unfold Task.holds
    simp [howner]
  have hdrop := sum_filter_add_le (f := (·.holds n place)) (q := (·.number != t.number)) ht
    (by simp)
  unfold held at honce ⊢
  dsimp only
  omega

/-- A task ends with an outcome that is explained. -/
theorem Accounted.conclude {x : Attempt Response} (hs : s.Accounted b h)
    (ht : t.Accounted b h)
    (hfree : ∀ n place, t.owner = .task n place →
      { s with tasks := s.tasks.filter (·.number != t.number) }.held n place = 0)
    (hx : Explained (b.ToldSince t.number) t.formula t.version t.job x) :
    (s.conclude t x).Accounted b h := by
  have hgone := hs.thin (.refl s.ready) (List.filter_sublist (p := (·.number != t.number)))
  have herrand := ht.errand_eq
  have howner : t.owner.Accounted b h t.number t.errand :=
    hs.history.owners _ _ ht.first herrand
  unfold Service.conclude
  dsimp only
  cases howns : t.owner with
  | caller name saved =>
    rw [howns] at howner
    obtain ⟨c, r, htaken, hcaller, hversion, hprepared⟩ := howner
    exact hgone.finish (e := ⟨name, x, t.context.restore saved⟩)
      ⟨c, r, htaken, hcaller, .inr ⟨t.number, t.errand, saved, ht.first, herrand, howns, hversion,
        hprepared, hx⟩⟩
  | task n place =>
    rw [howns] at howner
    obtain ⟨hlt, e, g, hp, hformula, hversion, hjob⟩ := howner
    have hformula : t.formula = e.formula := hformula
    have hversion : t.version = e.version := hversion
    have hjob : t.job = .figure g := hjob
    have hpart := hx.since (Nat.le_of_lt hlt)
    rw [hformula, hversion, hjob] at hpart
    have hfits : ∀ y, { s with tasks := s.tasks.filter (·.number != t.number) }.Fits
        (.report n place y) := by
      refine fun y => ⟨fun m q hholds => ?_, by simp⟩
      obtain ⟨rfl, rfl⟩ : n = m ∧ place = q := by simpa [Turn.holds] using hholds
      exact hfree n place howns
    rcases x with f | ⟨r | points⟩
    · have hreport : (Turn.report n place (.error f)).Accounted b h := ⟨e, g, hp, hpart⟩
      exact hgone.enqueue hreport (hfits _)
    · have hreport : (Turn.report n place (.ok r)).Accounted b h := ⟨e, g, hp, hpart⟩
      exact hgone.enqueue hreport (hfits _)
    · exact hgone

theorem Accounted.conclude_of_mem {x : Attempt Response} (hs : s.Accounted b h)
    (ht : t ∈ s.tasks) (hx : Explained (b.ToldSince t.number) t.formula t.version t.job x) :
    (s.conclude t x).Accounted b h :=
  hs.conclude (hs.tasks t ht) (fun _ _ => hs.held_without ht) hx

/-- A task that was told about its key goes on. -/
theorem Accounted.resume {x : Attempt Result} (hs : s.Accounted b h) (ht : t ∈ s.tasks)
    (hx : b.Heard h t.number x) : (s.resume t x).Accounted b h := by
  obtain ⟨a, entity, year, key, ha, hlooks, htold⟩ := hx
  obtain rfl : t.errand = a := Option.some.inj ((hs.tasks t ht).errand_eq.symm.trans ha)
  have hjob : t.job = .figure (.single entity year) := hlooks.job_eq
  refine hs.conclude_of_mem ht ?_
  rw [hjob]
  exact .heard hlooks.key_eq ⟨t.number, Nat.le_refl _, htold⟩

/-! ### Results of parts -/

/-- Of a task that is complete the results are those of its parts. -/
theorem Accounted.ordered (hs : s.Accounted b h) (ht : t ∈ s.tasks)
    (hcomplete : t.job.parts.length ≤ t.results.length) :
    List.Forall₂ (fun g r => Explained (b.ToldSince t.number) t.formula t.version (.figure g)
      (.ok (.figure r))) t.job.parts t.ordered := by
  have haccounted := hs.tasks t ht
  have hnodup : (t.results.map (·.1)).Nodup := by
    rw [List.nodup_iff_count_le_one]
    intro p
    have honce := hs.once t.number p
    have hself : t.holds t.number p ≤ (s.tasks.map (·.holds t.number p)).sum :=
      List.single_le_sum (by simp) _ (List.mem_map_of_mem ht)
    have hcount : (t.results.map (·.1)).count p ≤ t.holds t.number p := by
      unfold Task.holds
      rw [if_pos rfl, List.count, List.countP_map]
      exact Nat.le_add_left _ _
    unfold held at honce
    omega
  -- as many places as parts, none of them twice: every place has its result
  have hsub : t.results.map (·.1) ⊆ List.range t.job.parts.length := by
    intro p hp
    obtain ⟨r, hr, rfl⟩ := List.mem_map.mp hp
    obtain ⟨g, hg, -⟩ := haccounted.results r hr
    exact List.mem_range.mpr (List.getElem?_eq_some_iff.mp hg).1
  have hperm : (t.results.map (·.1)).Perm (List.range t.job.parts.length) :=
    (hnodup.subperm hsub).perm_of_length_le (by simpa using hcomplete)
  unfold Task.ordered
  refine forall₂_filterMap_range fun p g hg => ?_
  have hp : p ∈ t.results.map (·.1) :=
    hperm.mem_iff.mpr (List.mem_range.mpr (List.getElem?_eq_some_iff.mp hg).1)
  obtain ⟨r, hr, hplace⟩ := List.mem_map.mp hp
  cases hfind : t.results.find? (·.1 == p) with
  | none => exact absurd (List.find?_eq_none.mp hfind r hr) (by simpa using hplace)
  | some r =>
    obtain rfl : r.1 = p := by simpa using List.find?_some hfind
    obtain ⟨g', hg', hexplained⟩ := haccounted.results r (List.mem_of_find?_eq_some hfind)
    obtain rfl : g = g' := Option.some.inj (hg.symm.trans hg')
    exact ⟨r.2, rfl, hexplained⟩

theorem Accounted.update {u : Task} (hs : s.Accounted b h) (place : Nat) (ht : t ∈ s.tasks)
    (hu : u.Accounted b h) (hnumber : u.number = t.number) (hjob : u.job = t.job)
    (hlength : t.results.length ≤ u.results.length)
    (hholds : ∀ n p, u.holds n p ≤ t.holds n p + if t.number = n ∧ place = p then 1 else 0)
    (hfree : s.held t.number place = 0) :
    { s with
      tasks := s.tasks.map fun v : Task => if v.number = u.number then u else v }.Accounted b h :=
  { hs with
    tasks := by
      intro v hv
      rcases mem_update hv with rfl | ⟨hv, -⟩
      · exact hu
      · exact hs.tasks v hv
    numbers := (numbers_update u s.tasks).symm ▸ hs.numbers
    once := held_update_le hs.numbers hs.once ht hnumber hholds hfree
    complete := by
      intro n hn v hv heq
      rcases mem_update hv with rfl | ⟨hv, -⟩
      · rw [hjob]
        exact (hs.complete n hn t ht (hnumber.symm.trans heq)).trans hlength
      · exact hs.complete n hn v hv heq }

/-- A task takes in the outcome of a part that nothing stands for any more. -/
theorem Accounted.collect {place : Nat} {g : Figure} {x : Attempt Result}
    (hs : s.Accounted b h) (ht : t ∈ s.tasks) (hp : h.HasPart t.number place t.errand g)
    (hx : Explained (b.ToldSince t.number) t.formula t.version (.figure g) (x.map .figure))
    (hfree : s.held t.number place = 0) : (s.collect t place x).Accounted b h := by
  unfold Service.collect
  cases x with
  | error f =>
    have hturn : (Turn.wake t.number (some f)).Accounted b h := ⟨t.errand, g, place, hp, hx⟩
    exact hs.enqueue hturn ⟨by simp [Turn.holds], by simp⟩
  | ok r =>
    have haccounted : { t with results := t.results ++ [(place, r)] }.Accounted b h := by
      have hold := hs.tasks t ht
      refine ⟨hold.first, hold.errand_eq, fun r' hr' => ?_⟩
      rcases List.mem_append.mp hr' with hr' | hr'
      · exact hold.results r' hr'
      · obtain rfl := List.mem_singleton.mp hr'
        exact ⟨g, hp.part_eq, hx⟩
    have hcollected := hs.update place ht haccounted rfl rfl (by simp) (by
      intro n p
      unfold Task.holds
      by_cases hn : t.number = n <;> by_cases hplace : place = p <;>
        simp [hn, hplace, List.countP_append]
      omega) hfree
    dsimp only
    split
    · rename_i hcomplete
      have hcomposite : t.job.isComposite :=
        Job.isComposite_of_part (List.mem_of_getElem? hp.part_eq)
      have hwake : (Turn.wake t.number none).Accounted b h :=
        ⟨t.errand, hp.errand_eq, hcomposite, hp.check_eq⟩
      refine hcollected.enqueue hwake ⟨by simp [Turn.holds], ?_⟩
      rintro n ⟨⟩ v hv heq
      rcases mem_update hv with rfl | ⟨-, hne⟩
      · exact Nat.le_of_eq (beq_iff_eq.mp hcomplete).symm
      · exact absurd heq hne
    · exact hcollected

/-! ### Calls -/

theorem Accounted.enrol {c : Call} {f : Compiled} {job : Job} (hs : s.Accounted b h)
    (hc : b.taken c s.registry) (hprepared : s.registry.prepare c = .ok (f, job)) :
    ∃ h', h.Grows h' ∧ (s.enrol c f job).Accounted b h' ∧
      ∀ place, (s.enrol c f job).held (s.taskOf c f job).number place = 0 := by
  have hcounted : { s with nextRequest := s.nextRequest + 1 }.Accounted b h := { hs with }
  have hnoted := hcounted.record (s.taskOf c f job).context (c.composed_note f.key).keepsSetup
  obtain ⟨h', hg, -, haccounted, hfree⟩ := hnoted.extend (u := s.taskOf c f job) rfl
    ⟨c, s.registry, hc, rfl, rfl, hprepared⟩ rfl (by simp [taskOf])
  exact ⟨h', hg, haccounted, hfree⟩

/-- What a task asks the cache for is the key that it looks up. -/
theorem Accounted.asks_lookups (hs : s.Accounted b h) (ht : t ∈ s.tasks) {n : Nat}
    {key : CacheKey} (hkey : .request n key ∈ t.lookups) : b.Asks h n key := by
  have herrand := (hs.tasks t ht).errand_eq
  unfold Task.lookups at hkey
  split at hkey
  · rename_i entity year hjob
    split at hkey
    · rename_i key' hof
      obtain ⟨rfl, rfl⟩ : n = t.number ∧ key = key' := by simpa using hkey
      exact ⟨(List.getElem?_eq_some_iff.mp herrand).1, fun _ =>
        ⟨t.errand, entity, year, herrand, hjob, hof⟩⟩
    · cases hkey
  · cases hkey

/-- A task ends with what it is told at once about its key. -/
theorem Accounted.conclude_told {entity year : Value} {key : CacheKey} {x : Attempt Result}
    (hs : s.Accounted b h) (ht : t ∈ s.tasks) (hjob : t.job = .figure (.single entity year))
    (hkey : CacheKey.ofValues entity year t.version (.text t.formula.key) = .ok key)
    (hx : b.told t.number key x) :
    (s.conclude t ((Aggregate.contribution t.formula.kind x).map .figure)).Accounted b h := by
  refine hs.conclude_of_mem ht ?_
  rw [hjob]
  exact .heard hkey ⟨t.number, Nat.le_refl _, hx⟩

theorem Accounted.request {entity year : Value} {key : CacheKey} (hs : s.Accounted b h)
    (ht : t ∈ s.tasks) (hjob : t.job = .figure (.single entity year))
    (hkey : CacheKey.ofValues entity year t.version (.text t.formula.key) = .ok key)
    (hshared : w.shared = s.cache) (hblocked : s.cache.blocked? key = none)
    (htold : ∀ d ∈ (w.step (.request t.number key)).2, b.told d.caller d.key d.outcome) :
    (s.request t entity year key).Accounted b h := by
  unfold Service.request SharedCache.request
  rcases heq : s.cache.cache.request s.cache.time key with ⟨cache, r | n | n⟩ <;> dsimp only
  · have hhit : (w.step (.request t.number key)).2 =
        [⟨w.calls, t.number, key, w.author key, .ok r⟩] := by
      simp [TracedCache.step, SharedCache.lookup, hshared, hblocked, heq]
    have hcached := (hs.withCache { s.cache with cache := cache }).record t.context
      ((Cache.Lookup.hit r).composed_note key).keepsSetup
    rw [hhit] at htold
    exact hcached.conclude_told (x := .ok r) ht hjob hkey (htold _ (List.mem_singleton_self _))
  · exact (hs.withCache _).record t.context ((Cache.Lookup.joined n).composed_note key).keepsSetup
  · have hcached := (hs.withCache { s.cache with
      cache := cache
      flights := s.cache.flights ++ [⟨n, key, [t.number]⟩] }).record t.context
      ((Cache.Lookup.started n).composed_note key).keepsSetup
    have hturn : ∀ turn ∈ [Turn.takeOff n], turn.Accounted b h ∧ (∀ m p, turn.holds m p = false) ∧
        ∀ m, turn ≠ .wake m none := by
      simp [Turn.Accounted, Turn.holds]
    have hadded := hcached.enqueue_all hturn
    exact { hadded with }

theorem Accounted.lookUp {entity year : Value} (hs : s.Accounted b h) (ht : t ∈ s.tasks)
    (hjob : t.job = .figure (.single entity year)) (hshared : w.shared = s.cache)
    (htold : ∀ d ∈ (w.run t.lookups).2, b.told d.caller d.key d.outcome) :
    (s.lookUp t entity year).Accounted b h := by
  unfold Service.lookUp
  unfold Task.lookups at htold
  rw [hjob] at htold
  dsimp only at htold
  cases hkey : CacheKey.ofValues entity year t.version (.text t.formula.key) with
  | error f =>
    refine hs.conclude_of_mem ht ?_
    rw [hjob]
    exact .keyless hkey
  | ok key =>
    rw [hkey] at htold
    simp only [TracedCache.run_single] at htold
    dsimp only
    cases hblocked : s.cache.blocked? key with
    | some fault =>
      have hfault : (w.step (.request t.number key)).2 =
          [⟨w.calls, t.number, key, none, .error (.time fault)⟩] := by
        simp [TracedCache.step, SharedCache.lookup, hshared, hblocked]
      rw [hfault] at htold
      exact hs.conclude_told (x := .error (.time fault)) ht hjob hkey
        (htold _ (List.mem_singleton_self _))
    | none => exact hs.request ht hjob hkey hshared hblocked htold

/-- A task begins: what it is there for is refused, looked up or split. -/
theorem Accounted.begin (hs : s.Accounted b h) (ht : t ∈ s.tasks)
    (hfree : ∀ place, s.held t.number place = 0) (hshared : w.shared = s.cache)
    (htold : ∀ d ∈ (w.run t.lookups).2, b.told d.caller d.key d.outcome) :
    ∃ h', h.Grows h' ∧ (s.begin t).Accounted b h' := by
  unfold Service.begin
  cases hcheck : t.job.check with
  | error f => exact ⟨h, .refl h, hs.conclude_of_mem ht (.refused hcheck)⟩
  | ok u =>
    dsimp only
    split
    · rename_i entity year hjob
      exact ⟨h, .refl h, hs.lookUp ht hjob hshared htold⟩
    · exact hs.spawn ht hcheck hfree

/-- A call is taken up: it is refused, or a task of its own begins. -/
theorem Accounted.takeUp {c : Call} (hs : s.Accounted b h) (hc : b.taken c s.registry)
    (hshared : w.shared = s.cache)
    (htold : ∀ d ∈ (w.run (s.cacheMoves (.call c))).2, b.told d.caller d.key d.outcome) :
    ∃ h', h.Grows h' ∧ (s.takeUp c).Accounted b h' ∧
      ∀ n key, .request n key ∈ s.cacheMoves (.call c) → b.Asks h' n key := by
  rw [takeUp_eq]
  simp only [cacheMoves] at htold ⊢
  revert htold
  cases hprepared : s.registry.prepare c with
  | error f =>
    intro _
    have hending : Ending.Accounted b h ⟨c.caller, .error f, c.context⟩ :=
      ⟨c, s.registry, hc, rfl, .inl ⟨f, hprepared, rfl⟩⟩
    exact ⟨h, .refl h, hs.finish hending, by simp⟩
  | ok prepared =>
    obtain ⟨f, job⟩ := prepared
    intro htold
    obtain ⟨h₁, hg₁, henrolled, hfree⟩ := hs.enrol hc hprepared
    have hmem : s.taskOf c f job ∈ (s.enrol c f job).tasks :=
      List.mem_append_right _ List.mem_cons_self
    obtain ⟨h₂, hg₂, hbegun⟩ := henrolled.begin (w := w) hmem hfree hshared htold
    exact ⟨h₂, hg₁.trans hg₂, hbegun, fun n key hkey =>
      (henrolled.asks_lookups hmem hkey).grow hg₂⟩

/-- A task ends with the results of its parts, or with the failure of one. -/
theorem Accounted.goOn {failure : Option Failure} (hs : s.Accounted b h) (ht : t ∈ s.tasks)
    (hturn : (Turn.wake t.number failure).Accounted b h)
    (hcomplete : failure = none → t.job.parts.length ≤ t.results.length) :
    (s.goOn t failure).Accounted b h := by
  have haccounted := hs.tasks t ht
  have herrand := haccounted.errand_eq
  cases failure with
  | some f =>
    obtain ⟨a, g, place, hp, hx⟩ := hturn
    obtain rfl : t.errand = a := Option.some.inj (herrand.symm.trans hp.errand_eq)
    refine (hs.abandon (s.within t.number)).conclude haccounted (fun n p howner => ?_)
      (.failed hp.check_eq (List.mem_of_getElem? hp.part_eq) hx)
    have hless := held_le_of_sublist (s := { s with tasks := s.tasks.filter (·.number != t.number) })
      (.refl s.ready) ((List.filter_sublist (l := s.tasks)
        (p := fun u => !(s.within t.number).any (·.number == u.number))).filter
          (·.number != t.number)) n p
    rw [hs.held_without ht howner] at hless
    exact Nat.le_zero.mp hless
  | none =>
    obtain ⟨a, ha, hcomposite, hcheck⟩ := hturn
    obtain rfl : t.errand = a := Option.some.inj (herrand.symm.trans ha)
    have hrecorded := hs.record t.context t.steady_respond.keepsSetup
    have houtcome := record_fst_eq hs.quiet t.context t.steady_respond
    have hx : Explained (b.ToldSince t.number) t.formula t.version t.job
        (t.job.combine t.formula.kind t.ordered) :=
      .of_forall₂ hcomposite hcheck (hs.ordered ht (hcomplete rfl))
    exact hrecorded.conclude_of_mem ht (houtcome ▸ hx)

/-! ### Flights -/

theorem Accounted.enqueue_granted (hs : s.Accounted b h) (next : Option Nat) :
    (s.enqueue (next.map Turn.granted).toList).Accounted b h := by
  refine hs.enqueue_all ?_
  cases next <;> simp [Turn.Accounted, Turn.holds]

theorem Accounted.releaseSlot (hs : s.Accounted b h) : s.releaseSlot.Accounted b h :=
  (hs.withSlots _).enqueue_granted _

/-- The tasks that wait for a flight are told what it brings. -/
theorem Accounted.land {c : Computation} {x : Attempt Result} (hs : s.Accounted b h)
    (hw : s.Traced b h w)
    (htold : ∀ d ∈ (w.step (.land c.flight x)).2, b.told d.caller d.key d.outcome) :
    (s.land c x).Accounted b h := by
  have hgone : { s with
      computations := s.computations.filter (·.flight != c.flight) }.Accounted b h := { hs with }
  unfold Service.land
  dsimp only
  cases hflight : s.cache.flight? c.flight with
  | none => exact hgone
  | some f =>
    have hlanded := hgone.withCache (s.cache.land f (s.cache.arrival f x)).1
    have hnoted := hlanded.record c.context
      ((s.cache.land f (s.cache.arrival f x)).2.composed_note c.key).keepsSetup
    refine hnoted.enqueue_all fun turn hturn => ?_
    obtain ⟨n, hn, rfl⟩ := List.mem_map.mp hturn
    refine ⟨fun hfirst => ?_, by simp [Turn.holds], by simp⟩
    -- the task is one of those that wait, and what is delivered to it names its key
    have hanswer : (⟨n, s.cache.arrival f x⟩ : SharedCache.Answer Nat) ∈
        (w.step (.land c.flight x)).2.map Delivery.answer := by
      rw [hw.inv.step_answers, hw.shared]
      simpa [SharedCache.step, hflight] using hn
    obtain ⟨d, hd, hanswer⟩ := List.mem_map.mp hanswer
    obtain ⟨rfl, houtcome⟩ : d.caller = n ∧ d.outcome = s.cache.arrival f x := by
      simpa [Delivery.answer] using hanswer
    have hasks := (hw.waits.step (e := .land c.flight x) (by simp)).2 d hd
    exact hasks.heard hfirst (houtcome ▸ htold d hd)

theorem Accounted.compute {c : Computation} (hs : s.Accounted b h) (hw : s.Traced b h w)
    (htold : ∀ d ∈ (w.run [s.landing c]).2, b.told d.caller d.key d.outcome) :
    (s.compute c).Accounted b h := by
  have hfetch := s.source.steady_fetch c.entity c.year c.version
  have hcounted : { s with fetches := s.fetches + 1 }.Accounted b h := { hs with }
  have hreleased := (hcounted.record c.bound hfetch.keepsSetup).releaseSlot
  rw [TracedCache.run_single] at htold
  unfold Service.compute
  dsimp only
  rw [record_fst_eq hcounted.quiet c.bound hfetch]
  unfold landing outcome Compiled.outcome at htold
  revert htold
  cases s.source.answer c.entity c.year c.version with
  | error f => exact fun htold => hreleased.land { hw with } htold
  | ok ledger =>
    intro htold
    have hevaluated := steady_evaluation c ledger
    have hrecorded := hreleased.record c.bound hevaluated.keepsSetup
    have houtcome := record_fst_eq hreleased.quiet c.bound hevaluated
    exact hrecorded.land { hw with } (houtcome ▸ htold)

theorem Accounted.fetch {c : Computation} (hs : s.Accounted b h) (hw : s.Traced b h w)
    (htold : ∀ d ∈ (w.run ((s.fetchesNow? c).map s.landing).toList).2,
      b.told d.caller d.key d.outcome) : (s.fetch c).Accounted b h := by
  unfold Service.fetch
  unfold fetchesNow? at htold
  split
  · exact { hs with }
  · rename_i hhold
    rw [if_neg hhold] at htold
    exact hs.compute hw htold

/-! ### Turns -/

/-- A turn that was taken out is performed, with what the cache tells meanwhile. -/
theorem Accounted.perform {turn : Turn} (hs : s.Accounted b h) (hturn : turn.Accounted b h)
    (hfits : s.Fits turn) (hcall : ∀ c, turn = .call c → b.taken c s.registry)
    (hw : s.Traced b h w)
    (htold : ∀ d ∈ (w.run (s.cacheMoves turn)).2, b.told d.caller d.key d.outcome) :
    ∃ h', h.Grows h' ∧ (s.perform turn).Accounted b h' ∧
      ∀ n key, .request n key ∈ s.cacheMoves turn → b.Asks h' n key := by
  have hstays : ∀ {s' : Service}, s'.Accounted b h →
      (∀ n key, .request n key ∉ s.cacheMoves turn) →
      ∃ h', h.Grows h' ∧ s'.Accounted b h' ∧
        ∀ n key, .request n key ∈ s.cacheMoves turn → b.Asks h' n key :=
    fun hs' hnone => ⟨h, .refl h, hs', fun n key hmem => absurd hmem (hnone n key)⟩
  have herrand : ∀ {t : Task} {a : Errand}, t ∈ s.tasks → h.errands[t.number]? = some a →
      t.errand = a := fun ht ha => Option.some.inj ((hs.tasks _ ht).errand_eq.symm.trans ha)
  cases turn with
  | call c =>
    obtain ⟨h', hg, haccounted, hasks⟩ := hs.takeUp (hcall c rfl) hw.shared htold
    exact ⟨h', hg, haccounted, hasks⟩
  | begin n =>
    simp only [cacheMoves] at htold ⊢
    simp only [Service.perform, withTask]
    cases hfind : s.task? n with
    | none => exact ⟨h, .refl h, hs, by simp⟩
    | some t =>
      obtain ⟨ht, rfl⟩ := mem_of_task? hfind
      rw [hfind] at htold
      obtain ⟨h', hg, hbegun⟩ := hs.begin ht
        (fun place => hfits.unheld t.number place (by simp [Turn.holds])) hw.shared htold
      exact ⟨h', hg, hbegun, fun n key hkey => (hs.asks_lookups ht hkey).grow hg⟩
  | takeOff n =>
    refine hstays ?_ (by simp [cacheMoves, landing])
    simp only [cacheMoves, computes?] at htold
    simp only [Service.perform, withComputation, Service.takeOff]
    cases hfind : s.computation? n with
    | none => exact hs
    | some c =>
      rw [hfind] at htold
      dsimp only
      split
      · rename_i hgranted
        simp only [Option.bind_some, hgranted, if_true] at htold
        exact (hs.withSlots _).fetch { hw with } htold
      · exact hs.withSlots _
  | granted n =>
    refine hstays ?_ (by simp [cacheMoves, landing])
    simp only [cacheMoves, computes?] at htold
    simp only [Service.perform, withComputation, Service.useGranted]
    cases hfind : s.computation? n with
    | none => exact hs
    | some c =>
      rw [hfind] at htold
      exact ((hs.withSlots _).enqueue_granted _).fetch { hw with } htold
  | fetched n =>
    refine hstays ?_ (by simp [cacheMoves, landing])
    simp only [cacheMoves, computes?] at htold
    simp only [Service.perform, withComputation]
    cases hfind : s.computation? n with
    | none => exact hs
    | some c =>
      rw [hfind] at htold
      exact hs.compute hw htold
  | deliver n x =>
    refine hstays ?_ (by simp [cacheMoves, computes?])
    simp only [Service.perform, withTask]
    cases hfind : s.task? n with
    | none => exact hs
    | some t =>
      obtain ⟨ht, rfl⟩ := mem_of_task? hfind
      have hresume : (Turn.resume t.number x).Accounted b h := hturn (hs.tasks t ht).first
      exact hs.enqueue hresume ⟨by simp [Turn.holds], by simp⟩
  | resume n x =>
    refine hstays ?_ (by simp [cacheMoves, computes?])
    simp only [Service.perform, withTask]
    cases hfind : s.task? n with
    | none => exact hs
    | some t =>
      obtain ⟨ht, rfl⟩ := mem_of_task? hfind
      exact hs.resume ht hturn
  | report n place x =>
    refine hstays ?_ (by simp [cacheMoves, computes?])
    simp only [Service.perform, withTask]
    cases hfind : s.task? n with
    | none => exact hs
    | some t =>
      obtain ⟨ht, rfl⟩ := mem_of_task? hfind
      obtain ⟨a, g, hp, hx⟩ := hturn
      obtain rfl := herrand ht hp.errand_eq
      exact hs.collect ht hp hx (hfits.unheld t.number place (by simp [Turn.holds]))
  | wake n failure =>
    refine hstays ?_ ?_
    · simp only [Service.perform, withTask]
      cases hfind : s.task? n with
      | none => exact hs
      | some t =>
        obtain ⟨ht, rfl⟩ := mem_of_task? hfind
        exact hs.goOn ht hturn fun hnone => hfits.complete t.number (by rw [hnone]) t ht rfl
    · intro m key
      cases failure with
      | none => simp [cacheMoves, computes?]
      | some f => cases hfind : s.task? n <;> simp [cacheMoves, hfind, leaves]

theorem Accounted.take {place : Nat} (hs : s.Accounted b h) (hw : s.Traced b h w)
    (hcall : ∀ c, s.ready[place]? = some (.call c) → b.taken c s.registry)
    (htold : ∀ d ∈ (w.run (s.cacheEvents (.take place))).2, b.told d.caller d.key d.outcome) :
    ∃ h', h.Grows h' ∧ (s.take place).Accounted b h' ∧
      ∀ n key, .request n key ∈ s.cacheEvents (.take place) → b.Asks h' n key := by
  simp only [cacheEvents] at htold ⊢
  unfold Service.take
  cases hready : s.ready[place]? with
  | none => exact ⟨h, .refl h, hs, by simp⟩
  | some turn =>
    rw [hready] at htold
    obtain ⟨htaken, hturn, hfits⟩ := hs.takeOut hready
    exact htaken.perform hturn hfits (fun c hc => hcall c (hc ▸ hready)) { hw with } htold

/-! ### What else can happen -/

theorem Accounted.cancel (hs : s.Accounted b h) (caller : String) :
    (s.cancel caller).Accounted b h :=
  (hs.abandon _).thin List.filter_sublist (.refl _)

theorem Accounted.letGo (hs : s.Accounted b h) (entity year version : Value) :
    (s.letGo entity year version).Accounted b h := by
  unfold Service.letGo
  dsimp only
  split
  · rename_i flight _
    have herased : { s with fetching := s.fetching.erase flight }.Accounted b h := { hs with }
    exact herased.enqueue_all (by simp [Turn.Accounted, Turn.holds])
  · exact hs

theorem Accounted.addLedger (hs : s.Accounted b h) (l : Ledger) :
    ((s.addLedger l).toOption.getD s).Accounted b h := by
  unfold Service.addLedger
  cases s.source.add l with
  | error f => exact hs
  | ok source => exact { hs with }

theorem Accounted.save (hs : s.Accounted b h) (d : Definition) : (s.save d).2.Accounted b h := by
  have hrecorded := hs.record s.journal.context (s.registry.composed_saveRecorded d).keepsSetup
  unfold Service.save
  revert hrecorded
  rcases s.record s.journal.context (s.registry.saveRecorded d) with ⟨f | ⟨registry, d'⟩, s'⟩ <;>
    intro hrecorded
  · exact hrecorded
  · exact { hrecorded with }

theorem Accounted.invalidate (hs : s.Accounted b h) (entity year : Value) :
    (s.invalidate entity year).2.Accounted b h := by
  have hdropped : (s.withCache (s.cache.cache.invalidate entity year).1).Accounted b h :=
    hs.withCache _
  exact hdropped.record s.journal.context (Cache.composed_noteInvalidated entity year _).keepsSetup

/-- Only turns ask the cache for results. -/
theorem no_requests {e : Event} (he : ∀ place, e ≠ .take place) (n : Nat) (key : CacheKey) :
    .request n key ∉ s.cacheEvents e := by
  cases e with
  | take place => exact absurd rfl (he place)
  | cancel caller => simp [cacheEvents, leaves]
  | _ => simp [cacheEvents]

/-- Whatever happens keeps the accounts, and the cache tells only tasks that ask. -/
theorem Accounted.step (hs : s.Accounted b h) (hw : s.Traced b h w) (e : Event)
    (hcall : ∀ place c, e = .take place → s.ready[place]? = some (.call c) →
      b.taken c s.registry)
    (htold : ∀ d ∈ (w.run (s.cacheEvents e)).2, b.told d.caller d.key d.outcome) :
    ∃ h', h.Grows h' ∧ (s.step e).Accounted b h' ∧
      (s.step e).Traced b h' (w.run (s.cacheEvents e)).1 ∧
      ∀ d ∈ (w.run (s.cacheEvents e)).2, b.Asks h' d.caller d.key := by
  have hstep : ∃ h', h.Grows h' ∧ (s.step e).Accounted b h' ∧
      ∀ n key, .request n key ∈ s.cacheEvents e → b.Asks h' n key := by
    have hstays : (s.step e).Accounted b h → (∀ place, e ≠ .take place) →
        ∃ h', h.Grows h' ∧ (s.step e).Accounted b h' ∧
          ∀ n key, .request n key ∈ s.cacheEvents e → b.Asks h' n key :=
      fun hs' he => ⟨h, .refl h, hs', fun n key hmem => absurd hmem (no_requests he n key)⟩
    cases e with
    | take place => exact hs.take hw (fun c => hcall place c rfl) htold
    | call c => exact hstays (hs.enqueue_all (by simp [Turn.Accounted, Turn.holds])) (by simp)
    | cancel caller => exact hstays (hs.cancel caller) (by simp)
    | hold isHeld => exact hstays { hs with } (by simp)
    | letGo entity year version => exact hstays (hs.letGo entity year version) (by simp)
    | addLedger l => exact hstays (hs.addLedger l) (by simp)
    | save d => exact hstays (hs.save d) (by simp)
    | evict key => exact hstays (hs.withCache _) (by simp)
    | invalidate entity year => exact hstays (hs.invalidate entity year) (by simp)
    | clear => exact hstays (hs.withCache _) (by simp)
    | clock now => exact hstays (hs.withCache _) (by simp)
  obtain ⟨h', hg, haccounted, hasks⟩ := hstep
  obtain ⟨hwaits, hdelivered⟩ := (hw.waits.grow hg).run hasks
  refine ⟨h', hg, haccounted, ⟨hw.inv.run _, ?_, hwaits,
    started_step hw.shared hw.computations e⟩, hdelivered⟩
  rw [TracedCache.run_shared, hw.shared, cache_step hs.quiet]

/-- A run keeps the accounts with what the cache tells in it. -/
theorem Accounted.run {events : List Event} (hs : s.Accounted b h) (hw : s.Traced b h w)
    (hcall : ∀ c r, s.TakesUp events c r → b.taken c r)
    (htold : ∀ d ∈ (w.run (s.cacheTrace events)).2, b.told d.caller d.key d.outcome) :
    ∃ h', h.Grows h' ∧ (s.run events).Accounted b h' ∧
      (s.run events).Traced b h' (w.run (s.cacheTrace events)).1 ∧
      ∀ d ∈ (w.run (s.cacheTrace events)).2, b.Asks h' d.caller d.key := by
  induction events generalizing s h w with
  | nil => exact ⟨h, .refl h, hs, hw, nofun⟩
  | cons e events ih =>
    unfold cacheTrace at htold ⊢
    rw [TracedCache.run_append] at htold ⊢
    obtain ⟨h₁, hg₁, hs₁, hw₁, hasks₁⟩ := hs.step hw e
      (fun place c he hready => hcall c s.registry ⟨[], place, events, by rw [he]; rfl, hready, rfl⟩)
      (fun d hd => htold d (List.mem_append_left _ hd))
    obtain ⟨h₂, hg₂, hs₂, hw₂, hasks₂⟩ := ih hs₁ hw₁
      (by
        rintro c r ⟨before, place, after, rfl, hready, hr⟩
        exact hcall c r ⟨e :: before, place, after, rfl, hready, hr⟩)
      (fun d hd => htold d (List.mem_append_right _ hd))
    refine ⟨h₂, hg₁.trans hg₂, hs₂, hw₂, fun d hd => ?_⟩
    rcases List.mem_append.mp hd with hd | hd
    · exact (hasks₁ d hd).grow hg₂
    · exact hasks₂ d hd

end KeyFigures.Service
