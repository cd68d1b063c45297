/-
  KeyFigures/Proofs/Service/Progress.lean
  =======================================
  **A call does not get stuck.**

  Every task has a turn of its own, waits for a flight, or has a part that is
  not collected yet; every flight has its computation; and a call that is
  waited for is ready, under way or ended (`Service.Live`).  A turn that is
  taken out leaves a gap, which performing it closes.  When no turn and no
  flight is left, all tasks have ended.
-/
import KeyFigures.Proofs.Service.Turns

namespace KeyFigures

open Log.Recorded (KeepsSetup)

/-- Whether a turn moves a task on. -/
def Turn.moves (n : Nat) : Turn → Bool
  | .begin m | .deliver m _ | .resume m _ | .wake m _ => m == n
  | _ => false

/-- The task that a turn is about. -/
def Turn.subject? : Turn → Option Nat
  | .begin n | .deliver n _ | .resume n _ | .report n _ _ | .wake n _ => some n
  | _ => none

theorem Turn.subject?_of_moves {turn : Turn} {n : Nat} (h : turn.moves n) :
    turn.subject? = some n := by
  cases turn <;> simp_all [moves, subject?]

theorem Turn.subject?_of_holds {turn : Turn} {n place : Nat} (h : turn.holds n place) :
    turn.subject? = some n := by
  cases turn <;> simp_all [holds, subject?]

theorem Value.before?_eq_of_index? {a b : Value} {m : Int} (ha : a.index? = some m) :
    a.before? b = match a.magnitude?, b.magnitude? with
      | some m, some n => some (m.compare? n == some .lt)
      | _, _ => none := by
  cases a <;> first | cases ha
  all_goals rw [before?] <;> first | rfl | simp

theorem Value.before?_of_index? {a b : Value} {m n : Int} (ha : a.index? = some m)
    (hb : b.index? = some n) : a.before? b = some (decide (m < n)) := by
  have hmagnitude : ∀ {v : Value} {k : Int}, v.index? = some k →
      v.magnitude? = some (.fraction k 1) := by
    intro v k hv
    cases v <;> first | cases hv
    all_goals rfl
  have hcompare : (Magnitude.fraction m 1).compare? (.fraction n 1) = some (compare m n) := by
    simp [Magnitude.compare?]
  rw [before?_eq_of_index? ha, hmagnitude ha, hmagnitude hb]
  dsimp only
  rw [hcompare]
  by_cases hlt : m < n <;> simp [hlt, compare, compareOfLessAndEq]

namespace Job

/-- A job that is not refused has parts, unless it is a single figure. -/
theorem parts_ne_nil {job : Job} (hcomposite : job.isComposite) (hcheck : job.check = .ok ()) :
    job.parts ≠ [] := by
  match job, hcomposite with
  | .figure (.sum entities year), _ =>
    intro hnil
    have hdistinct : Value.distinct entities = [] := List.map_eq_nil_iff.mp hnil
    cases entities with
    | nil =>
      revert hcheck
      simp [check, Aggregate.entitiesOf, Attempt.refuse, Except.map]
    | cons v rest => simp [Value.distinct] at hdistinct
  | .series entities first last, _ =>
    cases hrange : Series.range first last with
    | error f => simp [check, hrange, Except.map] at hcheck
    | ok range =>
      obtain ⟨a, b⟩ := range
      have hyears : yearsOf first last = Series.years a b := by
        unfold yearsOf
        rw [hrange]
      have hle : a ≤ b := by
        unfold Series.range at hrange
        obtain ⟨isBefore, hbefore, hrange⟩ := Attempt.bind_eq_ok.mp hrange
        cases isBefore with
        | true => cases hrange
        | false =>
          obtain ⟨l, hl, hrange⟩ := Attempt.bind_eq_ok.mp hrange
          obtain ⟨f, hf, hrange⟩ := Attempt.bind_eq_ok.mp hrange
          cases hrange
          have hindex : ∀ {x : Option Int} {k : Int}, Attempt.ofTyped x = .ok k → x = some k := by
            intro x k hx
            cases x with
            | none => cases hx
            | some k' => rw [Except.ok.inj hx]
          have horder := Value.before?_of_index? (hindex hl) (hindex hf)
          rw [horder] at hbefore
          have hfalse : decide (b < a) = false := Except.ok.inj hbefore
          simpa using hfalse
      intro hnil
      have hnone : Series.years a b = [] := hyears ▸ List.map_eq_nil_iff.mp hnil
      have hzero : List.range (b + 1 - a).toNat = [] := List.map_eq_nil_iff.mp hnone
      rw [List.range_eq_nil] at hzero
      omega

/-- How deep the parts of a job go. -/
def rank : Job → Nat
  | .figure (.single _ _) => 0
  | .figure (.sum _ _) => 1
  | .series _ _ _ => 2

theorem rank_lt_of_part {job : Job} {g : Figure} (h : g ∈ job.parts) :
    (Job.figure g).rank < job.rank := by
  match job, h with
  | .figure (.sum entities year), h =>
    obtain ⟨entity, -, rfl⟩ := List.mem_map.mp h
    exact Nat.zero_lt_one
  | .series entities first last, _ =>
    cases g with
    | single => exact Nat.zero_lt_two
    | sum => exact Nat.one_lt_two

/-- The parts of a part have no parts. -/
theorem not_isComposite_of_part {job : Job} {g g' : Figure} (h : g ∈ job.parts)
    (h' : g' ∈ (Job.figure g).parts) : (Job.figure g').isComposite = false := by
  have hrank := rank_lt_of_part h
  have hrank' := rank_lt_of_part h'
  have htop : job.rank ≤ 2 := by
    unfold rank
    split <;> omega
  cases g' with
  | single => rfl
  | sum =>
    simp only [rank] at hrank hrank'
    cases g <;> simp only at hrank hrank' <;> omega

end Job

namespace Service

variable {w : Surroundings} {h : History} {s : Service} {t : Task} {awaited : String → Prop}

/-- Something moves a task on: a turn, a flight, or parts that are still to be
    collected. -/
def Due (s : Service) (t : Task) : Prop :=
  (∃ turn ∈ s.ready, turn.moves t.number) ∨
  (∃ f ∈ s.cache.flights, t.number ∈ f.waiting) ∨
  (t.results.length < t.job.parts.length ∧
    ∀ place < t.job.parts.length, 1 ≤ s.held t.number place)

/-- The numbers of the flights under way. -/
def aloft (s : Service) : List Nat := s.cache.flights.map (·.number)

/-- The calls of those that are `awaited` get on, where `gap` is a turn that was
    taken out and is not performed yet. -/
structure Live (awaited : String → Prop) (gap : Option Turn) (s : Service) : Prop where
  computed : ∀ n ∈ s.aloft, ∃ c ∈ s.computations, c.flight = n
  numbers : s.aloft.Nodup
  registered : ∀ r ∈ s.cache.cache.flights, r.2 ∈ s.aloft
  routes : (s.cache.cache.flights.map (·.1)).Nodup
  due : ∀ t ∈ s.tasks, gap.bind Turn.subject? = some t.number ∨ s.Due t
  under : ∀ name, awaited name →
    (∃ turn, (gap = some turn ∨ turn ∈ s.ready) ∧ turn.isCallOf name) ∨
    (∃ t ∈ s.tasks, t.isOf name) ∨ ∃ e ∈ s.endings, e.caller = name

theorem Due.mono {s' : Service} (ht : s.Due t) (hready : s.ready ⊆ s'.ready)
    (hflights : ∀ f ∈ s.cache.flights, t.number ∈ f.waiting →
      (∃ f ∈ s'.cache.flights, t.number ∈ f.waiting) ∨ ∃ turn ∈ s'.ready, turn.moves t.number)
    (hheld : ∀ place, s.held t.number place ≤ s'.held t.number place) : s'.Due t := by
  rcases ht with ⟨turn, hmem, hmoves⟩ | ⟨f, hf, hwaits⟩ | ⟨hopen, hparts⟩
  · exact .inl ⟨turn, hready hmem, hmoves⟩
  · rcases hflights f hf hwaits with hflight | hturn
    · exact .inr (.inl hflight)
    · exact .inl hturn
  · exact .inr (.inr ⟨hopen, fun place hplace => (hparts place hplace).trans (hheld place)⟩)

/-- A turn that is taken out leaves a gap. -/
theorem Live.takeOut {turn : Turn} (hl : { s with ready := turn :: s.ready }.Live awaited none) :
    s.Live awaited (some turn) := by
  refine { hl with due := ?_, under := fun name hname => ?_ }
  · intro t ht
    rcases hl.due t ht with hgap | hdue
    · cases hgap
    rcases hdue with ⟨x, hx, hmoves⟩ | hflight | ⟨hopen, hparts⟩
    · rcases List.mem_cons.mp hx with rfl | hx
      · exact .inl (Turn.subject?_of_moves hmoves)
      · exact .inr (.inl ⟨x, hx, hmoves⟩)
    · exact .inr (.inr (.inl hflight))
    · by_cases hholds : ∃ place, turn.holds t.number place
      · obtain ⟨place, hholds⟩ := hholds
        exact .inl (Turn.subject?_of_holds hholds)
      · refine .inr (.inr (.inr ⟨hopen, fun place hplace => ?_⟩))
        have hheld := hparts place hplace
        have hnot : turn.holds t.number place = false := by
          simpa using not_exists.mp hholds place
        unfold held at hheld ⊢
        simpa [List.countP_cons, hnot] using hheld
  · rcases hl.under name hname with ⟨x, hx, hcall⟩ | hunder
    · rcases hx with hgap | hx
      · cases hgap
      rcases List.mem_cons.mp hx with rfl | hx
      · exact .inl ⟨x, .inl rfl, hcall⟩
      · exact .inl ⟨x, .inr hx, hcall⟩
    · exact .inr hunder

theorem held_le_enqueue (turns : List Turn) (n place : Nat) :
    s.held n place ≤ (s.enqueue turns).held n place := by
  unfold held Service.enqueue
  simp only [List.countP_append]
  omega

theorem Live.enqueue {gap : Option Turn} (hl : s.Live awaited gap) (turns : List Turn) :
    (s.enqueue turns).Live awaited gap := by
  have hsub : s.ready ⊆ s.ready ++ turns := List.subset_append_left _ _
  refine { hl with due := ?_, under := fun name hname => ?_ }
  · refine fun t ht => (hl.due t ht).imp_right fun hdue =>
      hdue.mono hsub (fun f hf hwaits => .inl ⟨f, hf, hwaits⟩) (held_le_enqueue turns t.number)
  · rcases hl.under name hname with ⟨turn, hturn, hcall⟩ | hunder
    · exact .inl ⟨turn, hturn.imp_right fun hmem => hsub hmem, hcall⟩
    · exact .inr hunder

/-- The turn that was taken out has been performed. -/
theorem Live.close {turn : Turn} (hl : s.Live awaited (some turn))
    (hcall : ∀ name, turn.isCallOf name = false)
    (hdue : ∀ t ∈ s.tasks, turn.subject? = some t.number → s.Due t) : s.Live awaited none := by
  refine { hl with due := ?_, under := fun name hname => ?_ }
  · intro t ht
    rcases hl.due t ht with hgap | hready
    · exact .inr (hdue t ht hgap)
    · exact .inr hready
  · rcases hl.under name hname with ⟨x, hx | hx, hx'⟩ | hunder
    · obtain rfl := Option.some.inj hx
      rw [hcall name] at hx'
      cases hx'
    · exact .inl ⟨x, .inr hx, hx'⟩
    · exact .inr hunder

/-! ### Ends of tasks -/

theorem sum_le_sum_filter {f : Task → Nat} {q : Task → Bool} (tasks : List Task)
    (h : ∀ t ∈ tasks, q t = false → f t = 0) :
    (tasks.map f).sum ≤ ((tasks.filter q).map f).sum := by
  induction tasks with
  | nil => simp
  | cons t tasks ih =>
    have hrest := ih fun u hu => h u (List.mem_cons_of_mem t hu)
    cases hq : q t with
    | true =>
      simp only [List.filter_cons, hq, if_true, List.map_cons, List.sum_cons]
      omega
    | false =>
      have hzero := h t List.mem_cons_self hq
      simp only [List.filter_cons, hq, Bool.false_eq_true, if_false, List.map_cons, List.sum_cons]
      omega

theorem sum_le_sum_filter_add {f : Task → Nat} {tasks : List Task}
    (hnodup : (tasks.map (·.number)).Nodup) (ht : t ∈ tasks) :
    (tasks.map f).sum ≤ ((tasks.filter (·.number != t.number)).map f).sum + f t := by
  induction tasks with
  | nil => cases ht
  | cons u tasks ih =>
    rw [List.map_cons, List.nodup_cons] at hnodup
    rcases List.mem_cons.mp ht with rfl | ht
    · have hrest := sum_le_sum_filter (f := f) (q := (·.number != t.number)) tasks (by
        intro u hu hq
        have heq : u.number = t.number := by simpa using hq
        exact absurd (heq ▸ List.mem_map_of_mem hu) hnodup.1)
      simp only [List.filter_cons, bne_self_eq_false, Bool.false_eq_true, if_false, List.map_cons,
        List.sum_cons]
      omega
    · have hne : u.number ≠ t.number := fun heq =>
        hnodup.1 (heq ▸ List.mem_map_of_mem ht)
      have hrest := ih hnodup.2 ht
      simp only [List.filter_cons, bne_iff_ne.mpr hne, if_true, List.map_cons, List.sum_cons]
      omega

theorem holds_le {n : Nat} (hn : t.number ≠ n) (place : Nat) :
    t.holds n place ≤ match t.owner with
      | .task m q => if m = n ∧ q = place then 1 else 0
      | .caller _ _ => 0 := by
  unfold Task.holds
  rw [if_neg hn]
  exact Nat.le_refl _

/-- A task is gone: what it stood for is reported, or its call has ended. -/
theorem Live.without {turn : Turn} (reports : List Turn) (ends : List Ending)
    (hl : s.Live awaited (some turn)) (hnumbers : (s.tasks.map (·.number)).Nodup) (ht : t ∈ s.tasks)
    (hturn : turn.subject? = some t.number)
    (hreports : ∀ n place, t.owner = .task n place → ∃ x ∈ reports, x.holds n place)
    (hends : ∀ name, t.isOf name → ∃ e ∈ ends, e.caller = name) :
    { s with
      tasks := s.tasks.filter (·.number != t.number)
      ready := s.ready ++ reports
      endings := s.endings ++ ends }.Live awaited none := by
  refine { hl with due := ?_, under := fun name hname => ?_ }
  · intro u hu
    obtain ⟨hu, hne⟩ := List.mem_filter.mp hu
    have hne : u.number ≠ t.number := by simpa using hne
    have hdue : s.Due u := (hl.due u hu).resolve_left fun hgap =>
      hne (Option.some.inj (hgap.symm.trans hturn))
    refine .inr (hdue.mono (List.subset_append_left _ _)
      (fun f hf hwaits => .inl ⟨f, hf, hwaits⟩) fun place => ?_)
    have hsum := sum_le_sum_filter_add (f := (·.holds u.number place)) hnumbers ht
    have hself := holds_le hne.symm place
    -- only as a part of `u` the task stood for something of `u`
    have hreported : t.holds u.number place ≤ reports.countP (·.holds u.number place) := by
      cases howner : t.owner with
      | caller caller saved =>
        rw [howner] at hself
        exact hself.trans (Nat.zero_le _)
      | task n p =>
        rw [howner] at hself
        refine hself.trans ?_
        dsimp only
        split
        · rename_i heq
          obtain ⟨x, hx, hholds⟩ := hreports n p howner
          rw [heq.1, heq.2] at hholds
          exact List.countP_pos_iff.mpr ⟨x, hx, hholds⟩
        · exact Nat.zero_le _
    unfold held
    simp only [List.countP_append]
    omega
  · rcases hl.under name hname with ⟨x, hx | hx, hx'⟩ | ⟨u, hu, hof⟩ | ⟨e, he, heq⟩
    · obtain rfl := Option.some.inj hx
      cases turn <;> first | cases hx' | cases hturn
    · exact .inl ⟨x, .inr (List.mem_append_left _ hx), hx'⟩
    · by_cases hut : u.number = t.number
      · obtain rfl := List.inj_on_of_nodup_map hnumbers hu ht hut
        obtain ⟨e, he, heq⟩ := hends name hof
        exact .inr (.inr ⟨e, List.mem_append_right _ he, heq⟩)
      · exact .inr (.inl ⟨u, List.mem_filter.mpr ⟨hu, by simpa using hut⟩, hof⟩)
    · exact .inr (.inr ⟨e, List.mem_append_left _ he, heq⟩)

/-- When a task ends, all others get on as before. -/
theorem Live.conclude {turn : Turn} {x : Attempt Response} (hl : s.Live awaited (some turn))
    (hnumbers : (s.tasks.map (·.number)).Nodup) (ht : t ∈ s.tasks)
    (hturn : turn.subject? = some t.number)
    (hx : ∀ n place, t.owner = .task n place → ∀ points, x ≠ .ok (.series points)) :
    (s.conclude t x).Live awaited none := by
  unfold Service.conclude
  dsimp only
  cases howner : t.owner with
  | caller caller saved =>
    have hgone := hl.without [] [⟨caller, x, t.context.restore saved⟩] hnumbers ht hturn
      (by rw [howner]; simp) (by simp [Task.isOf, howner])
    rw [List.append_nil] at hgone
    exact hgone
  | task n place =>
    have hreport : ∀ y, ({ s with tasks := s.tasks.filter (·.number != t.number) }.enqueue
        [.report n place y]).Live awaited none := by
      intro y
      have hgone := hl.without [.report n place y] [] hnumbers ht hturn (by
        rw [howner]
        rintro _ _ ⟨⟩
        exact ⟨_, List.mem_cons_self, by simp [Turn.holds]⟩) (by simp [Task.isOf, howner])
      rw [List.append_nil] at hgone
      exact hgone
    rcases x with f | ⟨r | points⟩
    · exact hreport _
    · exact hreport _
    · exact absurd rfl (hx n place howner points)

/-! ### Parts that are given up -/

theorem owner_eq_of_isPartOf {n : Nat} (h : t.isPartOf n) : ∃ place, t.owner = .task n place := by
  unfold Task.isPartOf at h
  split at h
  · rename_i owner place heq
    obtain rfl : owner = n := by simpa using h
    exact ⟨place, heq⟩
  · cases h

theorem Sound.rank_lt {u : Task} (hs : s.Sound w h) (ht : t ∈ s.tasks) (hu : u ∈ s.tasks)
    (hpart : u.isPartOf t.number) : u.job.rank < t.job.rank := by
  obtain ⟨place, howner⟩ := owner_eq_of_isPartOf hpart
  have hsound : u.owner.Sound w h u.errand :=
    (hs.history _ (List.mem_of_getElem? (hs.tasks u hu).errand_eq)).owner
  rw [howner] at hsound
  obtain ⟨b, g, hp, -, -, hjob⟩ := hsound
  obtain rfl : t.errand = b :=
    Option.some.inj ((hs.tasks t ht).errand_eq.symm.trans hp.errand_eq)
  have hjob : u.job = .figure g := hjob
  rw [hjob]
  exact Job.rank_lt_of_part (List.mem_of_getElem? hp.part_eq)

theorem mem_within {n : Nat} {u : Task} (hu : u ∈ s.within n) :
    u ∈ s.tasks ∧ (u.isPartOf n ∨ ∃ p ∈ s.tasks, p.isPartOf n ∧ u.isPartOf p.number) := by
  unfold within at hu
  rcases List.mem_append.mp hu with hu | hu
  · obtain ⟨hmem, hpart⟩ := List.mem_filter.mp hu
    exact ⟨hmem, .inl hpart⟩
  · obtain ⟨p, hp, hu⟩ := List.mem_flatMap.mp hu
    obtain ⟨hpmem, hppart⟩ := List.mem_filter.mp hp
    obtain ⟨hmem, hpart⟩ := List.mem_filter.mp hu
    exact ⟨hmem, .inr ⟨p, hpmem, hppart, hpart⟩⟩

/-- A task is none of its parts. -/
theorem Sound.not_mem_within (hs : s.Sound w h) (ht : t ∈ s.tasks) : t ∉ s.within t.number := by
  intro hmem
  obtain ⟨-, hpart | ⟨p, hp, hpart, hpart'⟩⟩ := mem_within hmem
  · exact lt_irrefl _ (hs.rank_lt ht ht hpart)
  · exact lt_asymm (hs.rank_lt ht hp hpart) (hs.rank_lt hp ht hpart')

/-- Whether a task of that number is given up. -/
def drops (dropped : List Task) (n : Nat) : Bool := dropped.any (·.number == n)

theorem foldl_leave (dropped : List Task) (c : SharedCache Nat) :
    dropped.foldl (fun c t => c.leave t.number) c =
      { c with
        flights := c.flights.map fun f =>
          { f with waiting := f.waiting.filter fun n => !drops dropped n } } := by
  induction dropped generalizing c with
  | nil => simp [drops]
  | cons t dropped ih =>
    rw [List.foldl_cons, ih]
    simp only [SharedCache.leave, List.map_map, SharedCache.mk.injEq, true_and]
    refine List.map_congr_left fun f _ => ?_
    simp only [Function.comp, List.filter_filter, Flight.mk.injEq, true_and]
    refine List.filter_congr fun n _ => ?_
    have hself : (t.number == n) = decide (n = t.number) := by
      rw [beq_eq_decide]
      exact decide_eq_decide.mpr eq_comm
    unfold drops
    rw [List.any_cons, hself, Bool.not_or, Bool.and_comm, decide_not]

theorem drops_iff {dropped : List Task} {u : Task} (hnumbers : (s.tasks.map (·.number)).Nodup)
    (hdropped : ∀ x ∈ dropped, x ∈ s.tasks) (hu : u ∈ s.tasks) :
    drops dropped u.number = true ↔ u ∈ dropped := by
  unfold drops
  rw [List.any_eq_true]
  constructor
  · rintro ⟨x, hx, heq⟩
    obtain rfl : x = u :=
      List.inj_on_of_nodup_map hnumbers (hdropped x hx) hu (by simpa using heq)
    exact hx
  · exact fun hmem => ⟨u, hmem, by simp⟩

/-- Giving up the parts of a task keeps the task. -/
theorem Sound.mem_abandon (hs : s.Sound w h) (ht : t ∈ s.tasks) :
    t ∈ (s.abandon (s.within t.number)).tasks := by
  refine List.mem_filter.mpr ⟨ht, ?_⟩
  have hdrops := mt (drops_iff hs.numbers (fun x hx => (mem_within hx).1) ht).mp
    (hs.not_mem_within ht)
  simpa [drops] using hdrops

/-- What is given up was no part of a task that stays. -/
theorem held_le_abandon {dropped : List Task} {n : Nat} (hkept : drops dropped n = false)
    (howner : ∀ u ∈ s.tasks, drops dropped u.number = true → ∀ m place,
      u.owner = .task m place → m ≠ n) (place : Nat) :
    s.held n place ≤ (s.abandon dropped).held n place := by
  refine Nat.add_le_add_left (sum_le_sum_filter _ fun u hu hgone => ?_) _
  have hdrops : drops dropped u.number = true := by
    unfold drops
    simpa using hgone
  have hnumber : u.number ≠ n := by
    rintro rfl
    rw [hkept] at hdrops
    cases hdrops
  refine Nat.le_zero.mp ((holds_le hnumber place).trans ?_)
  split
  · rename_i m q hpart
    exact Nat.le_of_eq (if_neg fun hsame => howner u hu hdrops m q hpart hsame.1)
  · exact Nat.le_refl 0

/-- Tasks are given up, none of them a part of a task that waits for it and none
    the call of somebody who waits; all others get on as before. -/
theorem Live.giveUp {gap : Option Turn} {dropped : List Task} (hl : s.Live awaited gap)
    (hnumbers : (s.tasks.map (·.number)).Nodup) (hdropped : ∀ u ∈ dropped, u ∈ s.tasks)
    (howner : ∀ u ∈ dropped, ∀ n place, u.owner = .task n place →
      gap.bind Turn.subject? = some n ∨ drops dropped n)
    (hawaited : ∀ u ∈ dropped, ∀ name, awaited name → u.isOf name = false) :
    (s.abandon dropped).Live awaited gap := by
  have hiff : ∀ u ∈ s.tasks, drops dropped u.number = true ↔ u ∈ dropped :=
    fun u hu => drops_iff hnumbers hdropped hu
  have hkeep : ∀ u ∈ s.tasks, u ∉ dropped → u ∈ (s.abandon dropped).tasks := by
    intro u hu hnot
    refine List.mem_filter.mpr ⟨hu, ?_⟩
    have hdrops := mt (hiff u hu).mp hnot
    simpa [drops] using hdrops
  have hflights : (s.abandon dropped).cache.flights = s.cache.flights.map fun f =>
      { f with waiting := f.waiting.filter fun n => !drops dropped n } :=
    congrArg SharedCache.flights (foldl_leave _ _)
  have hcache : (s.abandon dropped).cache.cache = s.cache.cache := by
    unfold Service.abandon
    rw [foldl_leave]
  have haloft : (s.abandon dropped).aloft = s.aloft := by
    unfold aloft
    rw [hflights, List.map_map]
    rfl
  refine { hl with
    computed := ?_, numbers := ?_, registered := ?_, routes := ?_
    due := ?_, under := fun name hname => ?_ }
  · rw [haloft]
    exact hl.computed
  · rw [haloft]
    exact hl.numbers
  · rw [haloft, hcache]
    exact hl.registered
  · rw [hcache]
    exact hl.routes
  · intro u hu
    obtain ⟨hu, hnot⟩ := List.mem_filter.mp hu
    have hdrops : drops dropped u.number = false := by simpa [drops] using hnot
    refine (Decidable.em _).imp id fun hgap => ?_
    refine ((hl.due u hu).resolve_left hgap).mono (List.Subset.refl _)
      (fun f hf hwaits => .inl ?_) fun place => ?_
    · rw [hflights]
      exact ⟨_, List.mem_map_of_mem hf, List.mem_filter.mpr ⟨hwaits, by simp [hdrops]⟩⟩
    · refine held_le_abandon hdrops (fun x hx hgone m q hpart => ?_) place
      rintro rfl
      rcases howner x ((hiff x hx).mp hgone) u.number q hpart with hgap' | hdrops'
      · exact hgap hgap'
      · rw [hdrops] at hdrops'
        cases hdrops'
  · rcases hl.under name hname with hturn | ⟨u, hu, hof⟩ | hending
    · exact .inl hturn
    · refine .inr (.inl ⟨u, hkeep u hu fun hmem => ?_, hof⟩)
      rw [hawaited u hmem name hname] at hof
      cases hof
    · exact .inr (.inr hending)

theorem isOf_eq_false_of_part {u : Task} {n : Nat} (h : u.isPartOf n) (name : String) :
    u.isOf name = false := by
  obtain ⟨place, howner⟩ := owner_eq_of_isPartOf h
  unfold Task.isOf
  rw [howner]

/-- Who owns a part within a task: the task itself, or a part of it. -/
theorem owner_within {n m place : Nat} {u : Task} (hu : u ∈ s.within n)
    (howner : u.owner = .task m place) : m = n ∨ drops (s.within n) m := by
  obtain ⟨-, hpart | ⟨p, hp, hpart, hpart'⟩⟩ := mem_within hu
  · obtain ⟨q, howner'⟩ := owner_eq_of_isPartOf hpart
    exact .inl (Owner.task.inj (howner.symm.trans howner')).1
  · obtain ⟨q, howner'⟩ := owner_eq_of_isPartOf hpart'
    obtain rfl := (Owner.task.inj (howner.symm.trans howner')).1
    refine .inr (List.any_eq_true.mpr ⟨p, ?_, beq_self_eq_true _⟩)
    exact List.mem_append_left _ (List.mem_filter.mpr ⟨hp, hpart⟩)

/-- The parts of a task are given up, and all others get on as before. -/
theorem Live.abandon {turn : Turn} (hl : s.Live awaited (some turn)) (hs : s.Sound w h)
    (hturn : turn.subject? = some t.number) :
    (s.abandon (s.within t.number)).Live awaited (some turn) := by
  refine hl.giveUp hs.numbers (fun u hu => (mem_within hu).1) ?_ ?_
  · intro u hu n place howner
    rcases owner_within hu howner with rfl | hdrops
    · exact .inl hturn
    · exact .inr hdrops
  · intro u hu name _
    obtain ⟨-, hpart | ⟨p, -, -, hpart⟩⟩ := mem_within hu
    · exact isOf_eq_false_of_part hpart name
    · exact isOf_eq_false_of_part hpart name

end Service

end KeyFigures
