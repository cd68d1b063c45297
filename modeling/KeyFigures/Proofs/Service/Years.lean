/-
  KeyFigures/Proofs/Service/Years.lean
  ====================================
  **A series is its years.**

  Over an unchanging source, and as long as nothing is raised but that ledger
  data is missing, a series has one point for each of its years, in order, and
  each point is the answer to a call for that year alone
  (`Service.series_is_its_years`).  Neither call has to be made alone: turns
  are taken in any order, fetches may be held and let go on in any order, other
  calls may be under way, and results may be dropped from the cache.
-/
import KeyFigures.Proofs.Service.MissingLedger

namespace KeyFigures

open Attempt (FailsOnly NeverMissing)

/-! ### Nothing else is raised -/

/-- No evaluation that a job needs raises anything but that ledger data is
    missing: not that of an entity in a year, and not that of all entities in a
    year. -/
structure Compiled.OnlyMisses (fetched : Value → Value → Value → Attempt Ledger) (f : Compiled)
    (version : Value) (job : Job) : Prop where
  singles : ∀ x ∈ job.singles,
    (f.outcome fetched x.1 x.2 version).FailsOnly fun e => e.isMissingLedger = true
  sums : ∀ entities year, .sum entities year ∈ job.parts →
    (f.figure fetched version (.sum entities year)).FailsOnly fun e => e.isMissingLedger = true

/-- What only fails for a missing ledger, and never does, does not fail. -/
theorem Attempt.FailsOnly.exists_ok {α : Type} {x : Attempt α}
    (h : x.FailsOnly fun e => e.isMissingLedger = true) (hnever : x.NeverMissing) :
    ∃ a, x = .ok a := by
  cases x with
  | ok a => exact ⟨a, rfl⟩
  | error e =>
    have hmissing : e.isMissingLedger = true := h e rfl
    exact absurd hmissing (by simp [hnever e rfl])

/-- A missing ledger contributes an invalid result. -/
theorem Aggregate.exists_contribution {x : Attempt Result} (kind : ResultKind)
    (h : x.FailsOnly fun e => e.isMissingLedger = true) : ∃ r, contribution kind x = .ok r := by
  cases x with
  | ok r => exact ⟨r, rfl⟩
  | error e => exact ⟨.missing kind, if_pos (h e rfl)⟩

namespace Compiled

variable {fetched : Value → Value → Value → Attempt Ledger} {f : Compiled} {version : Value}
  {job : Job}

theorem neverMissing_figure (fetched : Value → Value → Value → Attempt Ledger) (f : Compiled)
    (version : Value) (g : Figure) : (f.figure fetched version g).NeverMissing := by
  cases g with
  | single entity year => exact Aggregate.neverMissing_contribution _ _
  | sum entities year =>
    refine (Aggregate.neverMissing_entitiesOf entities).bind fun es => ?_
    refine (FailsOnly.mapM (fun entity => ?_) es).bind fun results => ?_
    · exact Aggregate.neverMissing_contribution _ _
    · exact Aggregate.neverMissing_summed _ results

/-- Every part of the job has a figure. -/
theorem OnlyMisses.exists_figure (h : f.OnlyMisses fetched version job) {g : Figure}
    (hg : g ∈ job.parts) : ∃ r, f.figure fetched version g = .ok r := by
  cases g with
  | single entity year =>
    exact Aggregate.exists_contribution f.kind
      (h.singles (entity, year) (Job.singles_subset_of_part hg List.mem_cons_self))
  | sum entities year =>
    exact (h.sums entities year hg).exists_ok (neverMissing_figure fetched f version _)

/-- So does every part of a part. -/
theorem OnlyMisses.part (h : f.OnlyMisses fetched version job) {g : Figure} (hg : g ∈ job.parts) :
    f.OnlyMisses fetched version (.figure g) where
  singles := fun x hx => h.singles x (Job.singles_subset_of_part hg hx)
  sums := fun entities year hpart =>
    absurd (Job.not_isComposite_of_part hg hpart) (by simp [Job.isComposite])

/-- Parts that do not fail do not fail for different reasons. -/
theorem OnlyMisses.failsAlike (h : f.OnlyMisses fetched version job) :
    f.FailsAlike fetched version job := by
  intro g hg g' _ e e' he _
  obtain ⟨r, hr⟩ := h.exists_figure hg
  rw [hr] at he
  cases he

end Compiled

/-! ### The meaning of a series -/

theorem Series.range_of_le {first last : Int} (h : first ≤ last) :
    Series.range (.int first) (.int last) = .ok (first, last) := by
  have hbefore : Value.before? (.int last) (.int first) = some false := by
    rw [Value.before?_of_index? rfl rfl, decide_eq_false (not_lt.mpr h)]
  unfold Series.range
  rw [hbefore]
  rfl

theorem Job.yearsOf_of_le {first last : Int} (h : first ≤ last) :
    Job.yearsOf (.int first) (.int last) = Series.years first last := by
  unfold Job.yearsOf
  rw [Series.range_of_le h]

/-- Over the answers `fetched` a point is the figure of its year. -/
def SeriesPoint.Means (fetched : Value → Value → Value → Attempt Ledger) (f : Compiled)
    (version : Value) (entities : List Value) (p : SeriesPoint) : Prop :=
  ∃ r, f.figure fetched version (.ofYear entities (.int p.year)) = .ok r ∧ r.Agrees p.result

theorem Compiled.of_point_eq_ok {fetched : Value → Value → Value → Attempt Ledger} {f : Compiled}
    {version : Value} {entities : List Value} {year : Int} {p : SeriesPoint}
    (h : f.point fetched version entities year = .ok p) : p.year = year ∧
      f.figure fetched version (.ofYear entities (.int year)) = .ok p.result := by
  unfold Compiled.point at h
  cases hfigure : f.figure fetched version (.ofYear entities (.int year)) with
  | error e =>
    rw [hfigure] at h
    cases h
  | ok r =>
    rw [hfigure] at h
    obtain rfl := Except.ok.inj h
    exact ⟨rfl, rfl⟩

/-- The meaning of a series: its years in order, each with its figure. -/
theorem Compiled.exists_response {fetched : Value → Value → Value → Attempt Ledger} {f : Compiled}
    {version : Value} {entities : List Value} {first last : Int} (hyears : first ≤ last)
    (h : f.OnlyMisses fetched version (.series entities (.int first) (.int last))) :
    ∃ points, f.response fetched version (.series entities (.int first) (.int last)) =
        .ok (.series points) ∧
      List.Forall₂ (fun year p => f.point fetched version entities year = .ok p)
        (Series.years first last) points := by
  have hpoint : ∀ year ∈ Series.years first last,
      ∃ p, f.point fetched version entities year = .ok p ∧ True := by
    intro year hyear
    have hpart : Figure.ofYear entities (.int year) ∈
        (Job.series entities (.int first) (.int last)).parts := by
      rw [Job.parts, Job.yearsOf_of_le hyears]
      exact List.mem_map_of_mem hyear
    obtain ⟨r, hr⟩ := h.exists_figure hpart
    exact ⟨⟨year, r⟩, by rw [Compiled.point, hr]; rfl, trivial⟩
  obtain ⟨points, hpoints, -⟩ :=
    forall₂_exists (S := fun _ (_ : Int) => True) (List.forall₂_same.mpr hpoint)
  refine ⟨points, ?_, hpoints⟩
  have hmap := mapM_eq_ok_iff.mpr hpoints
  show (do
    let range ← Series.range (.int first) (.int last)
    ((Series.years range.1 range.2).mapM (f.point fetched version entities)).map
      Response.series) = _
  rw [Series.range_of_le hyears]
  show ((Series.years first last).mapM (f.point fetched version entities)).map Response.series = _
  rw [hmap]
  rfl

/-- A response that is like the meaning of a series has the points of its
    years. -/
theorem Compiled.exists_points {fetched : Value → Value → Value → Attempt Ledger} {f : Compiled}
    {version : Value} {entities : List Value} {first last : Int} (hyears : first ≤ last)
    (h : f.OnlyMisses fetched version (.series entities (.int first) (.int last)))
    {x : Attempt Response}
    (hx : Alike Response.Agrees
      (f.response fetched version (.series entities (.int first) (.int last))) x) :
    ∃ points, x = .ok (.series points) ∧ points.map (·.year) = Series.years first last ∧
      ∀ p ∈ points, p.Means fetched f version entities := by
  obtain ⟨means, hresponse, hmeans⟩ := exists_response hyears h
  rw [hresponse] at hx
  cases x with
  | error e => exact hx.elim
  | ok response =>
    cases hx with
    | @series _ points hagree =>
      refine ⟨points, rfl, ?_⟩
      clear hresponse
      -- one year after the other
      generalize Series.years first last = years at hmeans
      induction hmeans generalizing points with
      | nil =>
        cases hagree
        exact ⟨rfl, nofun⟩
      | @cons year p years ps hp _ ih =>
        obtain ⟨hyear, hfigure⟩ := of_point_eq_ok hp
        rcases hagree with _ | ⟨⟨hsame, hresult⟩, hrest⟩
        obtain ⟨hyears, hall⟩ := ih hrest
        rw [hyear] at hsame
        refine ⟨by simp [hyears, hsame], List.forall_mem_cons.mpr ⟨⟨p.result, ?_, hresult⟩, hall⟩⟩
        rw [← hsame]
        exact hfigure

/-! ### Runs in which nothing else is raised -/

/-- What is asked for is data of the right types; it raises nothing but that
    ledger data is missing, and the clock shows a time; and formulas with one
    key come to the same on every ledger, as one formula does. -/
structure Surroundings.Calm (w : Surroundings) : Prop where
  shown : ∀ fault, ¬ w.shown fault
  typed : ∀ {c r f job}, w.taken c r → r.prepare c = .ok (f, job) →
    (∀ x ∈ job.singles, x.1.IsText ∧ ∃ year, x.2 = .int year) ∧
      (c.version = .null ∨ c.version.IsText)
  onlyMisses : ∀ {c r f job}, w.taken c r → r.prepare c = .ok (f, job) →
    f.OnlyMisses w.fetched c.version job
  alike : ∀ {c r f job c' r' f' job'}, w.taken c r → r.prepare c = .ok (f, job) →
    w.taken c' r' → r'.prepare c' = .ok (f', job') → f.key = f'.key → ∀ balances,
      Alike Result.Agrees (f.tree.result balances f.kind) (f'.tree.result balances f'.kind)

namespace Surroundings

variable {w : Surroundings}

theorem Calm.coherent (hw : w.Calm) : w.Coherent := by
  refine coherent_of_typed hw.typed ?_ (failsAlike_of_asked fun htaken hprepared => ?_)
  · intro c r f job c' r' f' job' htaken hprepared htaken' hprepared' hkey entity year version
    refine Alike.bind (Alike.refl (fun ledger => Eq.refl ledger) _) ?_
    rintro ledger _ rfl
    exact hw.alike htaken hprepared htaken' hprepared' hkey ledger.balances
  · have honly := hw.onlyMisses htaken hprepared
    exact ⟨honly.failsAlike, fun g hg => (honly.part hg).failsAlike⟩

/-- Where all calls ask for one formula there are no two with one key. -/
theorem calm_of_formula (f : Compiled) (hshown : ∀ fault, ¬ w.shown fault)
    (hone : ∀ {c r g job}, w.taken c r → r.prepare c = .ok (g, job) → g = f ∧
      (∀ x ∈ job.singles, x.1.IsText ∧ ∃ year, x.2 = .int year) ∧
      (c.version = .null ∨ c.version.IsText) ∧ f.OnlyMisses w.fetched c.version job) :
    w.Calm where
  shown := hshown
  typed := fun htaken hprepared =>
    have h := hone htaken hprepared
    ⟨h.2.1, h.2.2.1⟩
  onlyMisses := fun htaken hprepared => by
    obtain ⟨rfl, -, -, honly⟩ := hone htaken hprepared
    exact honly
  alike := fun htaken hprepared htaken' hprepared' _ _ => by
    rw [(hone htaken hprepared).1, (hone htaken' hprepared').1]
    exact Alike.refl Result.Agrees.refl _

theorem Calm.alike_of_meets (hw : w.Calm) {α : Type} {R : α → α → Prop} {x y : Attempt α}
    (h : w.Meets R x y) : Alike R x y := by
  rcases h with h | ⟨fault, hshown, -⟩
  · exact h
  · exact absurd hshown (hw.shown fault)

end Surroundings

namespace Service

/-- A run from the start to the rest over a source that keeps answering as
    `fetched`, in which every caller makes one call and nothing is raised but
    that ledger data is missing.  At rest nothing is ready and no fetch is
    waited for. -/
structure Completes (fetched : Value → Value → Value → Attempt Ledger) (s : Service)
    (events : List Event) : Prop where
  started : ∃ registry source settings given now requestId,
    s = start registry source settings given (.ok now) requestId ∧
      1 ≤ settings.concurrencyLimit ∧ ∀ c ∈ given, c.cache.size = 0
  unchanging : ∀ before after, events = before ++ after →
    (s.run before).source.answer = fetched
  callers : ((made events).map (·.caller)).Nodup
  calm : Surroundings.Calm
    ⟨fetched, s.TakesUp events, fun fault => .clock (.error fault) ∈ events⟩
  ready : (s.run events).ready = []
  fetching : (s.run events).fetching = []

/-- A call has an answer in a run, and every answer of its caller is a response
    with a property. -/
def Answers (s : Service) (events : List Event) (c : Call) (P : Response → Prop) : Prop :=
  (∃ e ∈ (s.run events).endings, e.caller = c.caller) ∧
    ∀ e ∈ (s.run events).endings, e.caller = c.caller → ∃ x, e.outcome = .ok x ∧ P x

variable {fetched : Value → Value → Value → Attempt Ledger} {s : Service} {events : List Event}
  {c : Call} {r : Registry} {f : Compiled} {job : Job}

/-- A call that is taken up and not given up ends, and as it is meant. -/
theorem Completes.ends (hrun : s.Completes fetched events) (hc : s.TakesUp events c r)
    (hprepared : r.prepare c = .ok (f, job)) (hkept : .cancel c.caller ∉ events) :
    (∃ e ∈ (s.run events).endings, e.caller = c.caller) ∧
      ∀ e ∈ (s.run events).endings, e.caller = c.caller →
        Alike Response.Agrees (f.response fetched c.version job) e.outcome := by
  obtain ⟨registry, source, settings, given, now, requestId, hstart, hlimit, hgiven⟩ := hrun.started
  obtain ⟨w, hwe⟩ : ∃ w : Surroundings, w =
      ⟨fetched, s.TakesUp events, fun fault => .clock (.error fault) ∈ events⟩ := ⟨_, rfl⟩
  have hcalm : w.Calm := hwe ▸ hrun.calm
  have hanswers : ∀ before after, events = before ++ after → ∀ entity year version,
      (s.run before).source.answer entity year version = w.fetched entity year version := by
    intro before after heq entity year version
    rw [hrun.unchanging before after heq, hwe]
  have hcall : ∀ c r, s.TakesUp events c r → w.taken c r := by
    rw [hwe]
    exact fun _ _ htaken => htaken
  have hclock : ∀ fault, .clock (.error fault) ∈ events → w.shown fault := by
    rw [hwe]
    exact fun _ hmem => hmem
  have hsound : s.Sound w {} := by
    rw [hstart] at hanswers ⊢
    exact start_sound hgiven (hanswers [] events rfl) nofun
  have hlive : s.Live (fun _ => False) none := by
    rw [hstart]
    exact live_start hgiven
  have htower : s.tower.Orderly settings.concurrencyLimit [] := by
    rw [hstart]
    exact orderly_start registry source settings given (.ok now) requestId
  have hnone : s.calls = [] := by
    rw [hstart]
    rfl
  have hmade : c ∈ made events := by
    have hmem := hc.mem
    rwa [hnone] at hmem
  refine ⟨exists_ending hlimit hcalm.coherent htower hlive hsound hcall hanswers hclock hrun.ready
    hrun.fetching hmade hkept, fun e he hcaller => ?_⟩
  obtain ⟨h', hend⟩ := hsound.run hcalm.coherent hcall hanswers hclock
  obtain ⟨c', r', hc', hcaller', hmeets⟩ := hend.endings e he
  rw [hwe] at hc'
  -- the answer is that to the call, since the caller made no other
  obtain ⟨rfl, rfl⟩ := hc.unique hc' (hcaller.symm.trans hcaller'.symm)
    (by rw [hnone]; exact hrun.callers)
  have halike := hcalm.alike_of_meets hmeets
  rw [hwe] at halike
  unfold Registry.response at halike
  rw [hprepared] at halike
  exact halike

/-- A service that fetches two ledgers at a time and has one for 2024 only. -/
def twoAtATime : Service :=
  start ⟨[], none, .whole 1⟩ (.memory [⟨.text "A", .int 2024, .null, []⟩])
    ⟨.int 1, 2, none, none, "kr", true⟩ none (.ok ⟨0, none⟩) Nat.repr

def bothYears : Call := .series "a" (.text "A") (.int 2024) (.int 2025) oneAndAHalf .null

def lastYear : Call := .single "b" (.text "A") (.int 2025) oneAndAHalf .null

def bothYearsJob : Job := .series [.text "A"] (.int 2024) (.int 2025)

def lastYearJob : Job := .figure (.single (.text "A") (.int 2025))

def bothCalled : List Event := [.hold true, .call bothYears, .call lastYear]

/-- The ledger of the last year comes first. -/
def lastYearFirst : List Event :=
  bothCalled ++ List.replicate 6 (.take 0) ++
    [.letGo (.text "A") (.int 2025) .null, .letGo (.text "A") (.int 2024) .null] ++
    List.replicate 14 (.take 0)

section OutOfOrder

variable {f : Compiled}

/-- The service after the series was taken up, and after both were. -/
def seriesTakenUp (f : Compiled) : Service :=
  { twoAtATime.run bothCalled with ready := [.call lastYear] }.begun bothYears f bothYearsJob

def bothTakenUp (f : Compiled) : Service :=
  { seriesTakenUp f with ready := (seriesTakenUp f).ready.tail }.begun lastYear f lastYearJob

theorem take_bothYears
    (hseries : twoAtATime.registry.prepare bothYears = .ok (f, bothYearsJob)) :
    (twoAtATime.run bothCalled).take 0 = seriesTakenUp f := by
  have hready : (twoAtATime.run bothCalled).ready = [.call bothYears, .call lastYear] := rfl
  exact take_call hready hseries

theorem take_lastYear (hsingle : twoAtATime.registry.prepare lastYear = .ok (f, lastYearJob)) :
    (seriesTakenUp f).take 0 = bothTakenUp f := by
  have hready : (seriesTakenUp f).ready = .call lastYear :: (seriesTakenUp f).ready.tail := rfl
  exact take_call hready hsingle

theorem run_lastYearFirst
    (hseries : twoAtATime.registry.prepare bothYears = .ok (f, bothYearsJob))
    (hsingle : twoAtATime.registry.prepare lastYear = .ok (f, lastYearJob)) :
    twoAtATime.run lastYearFirst = (bothTakenUp f).run (List.replicate 4 (.take 0) ++
      [.letGo (.text "A") (.int 2025) .null, .letGo (.text "A") (.int 2024) .null] ++
      List.replicate 14 (.take 0)) := by
  rw [← take_lastYear hsingle, ← take_bothYears hseries]
  rfl

theorem takesUp_lastYearFirst
    (hseries : twoAtATime.registry.prepare bothYears = .ok (f, bothYearsJob)) :
    twoAtATime.TakesUp lastYearFirst bothYears twoAtATime.registry ∧
      twoAtATime.TakesUp lastYearFirst lastYear twoAtATime.registry := by
  refine ⟨⟨bothCalled, 0, _, rfl, rfl, rfl⟩, bothCalled ++ [.take 0], 0, _, rfl, ?_, ?_⟩
  · rw [run_append]
    show ((twoAtATime.run bothCalled).take 0).ready[0]? = _
    rw [take_bothYears hseries]
    rfl
  · exact run_keeps registry (by simp [bothCalled, registry_step])

/-- Both calls are for the one formula, each for its own job. -/
theorem TakesUp.prepared_lastYearFirst {c : Call} {r : Registry} {g : Compiled} {job : Job}
    (hseries : twoAtATime.registry.prepare bothYears = .ok (f, bothYearsJob))
    (hsingle : twoAtATime.registry.prepare lastYear = .ok (f, lastYearJob))
    (hc : twoAtATime.TakesUp lastYearFirst c r) (hprepared : r.prepare c = .ok (g, job)) :
    c.version = .null ∧ g = f ∧ (job = bothYearsJob ∨ job = lastYearJob) := by
  obtain rfl : r = twoAtATime.registry := hc.registry_eq (by simp [lastYearFirst, bothCalled])
  have hmade : c = bothYears ∨ c = lastYear := by
    simpa [lastYearFirst, bothCalled] using hc.made rfl
  rcases hmade with rfl | rfl
  · obtain ⟨rfl, rfl⟩ := Prod.mk.inj (Except.ok.inj (hseries.symm.trans hprepared))
    exact ⟨rfl, rfl, .inl rfl⟩
  · obtain ⟨rfl, rfl⟩ := Prod.mk.inj (Except.ok.inj (hsingle.symm.trans hprepared))
    exact ⟨rfl, rfl, .inr rfl⟩

/-- Both jobs come down to the entity in one of the two years, without a sum. -/
theorem singles_and_parts {job : Job} (h : job = bothYearsJob ∨ job = lastYearJob) :
    (∀ x ∈ job.singles, x = (.text "A", .int 2024) ∨ x = (.text "A", .int 2025)) ∧
      ∀ entities year, .sum entities year ∉ job.parts := by
  rcases h with rfl | rfl
  · have hsingles : bothYearsJob.singles = [(.text "A", .int 2024), (.text "A", .int 2025)] := rfl
    have hparts : bothYearsJob.parts =
        [.single (.text "A") (.int 2024), .single (.text "A") (.int 2025)] := rfl
    exact ⟨by simp [hsingles], by simp [hparts]⟩
  · exact ⟨fun x hx => .inr (List.mem_singleton.mp hx), fun _ _ => List.not_mem_nil⟩

theorem completes_lastYearFirst
    (hf : f = numberFormula (.finite false 15 (-1)) (.finite false 15 (-1)))
    (hseries : twoAtATime.registry.prepare bothYears = .ok (f, bothYearsJob))
    (hsingle : twoAtATime.registry.prepare lastYear = .ok (f, lastYearJob)) :
    twoAtATime.Completes twoAtATime.source.answer lastYearFirst where
  started := ⟨_, _, _, none, _, _, rfl, by decide, nofun⟩
  unchanging := fun before after heq => by
    have hsource : (twoAtATime.run before).source = twoAtATime.source := by
      refine run_keeps source fun e he _ => source_step fun l hl => ?_
      have hmem : .addLedger l ∈ lastYearFirst := heq ▸ List.mem_append_left after (hl ▸ he)
      simp [lastYearFirst, bothCalled] at hmem
    rw [hsource]
  callers := by decide
  calm := by
    refine Surroundings.calm_of_formula f (fun fault => by simp [lastYearFirst, bothCalled]) ?_
    intro c r g job hc hprepared
    obtain ⟨hversion, hg, hjob⟩ := hc.prepared_lastYearFirst hseries hsingle hprepared
    obtain ⟨hsingles, hparts⟩ := singles_and_parts hjob
    refine ⟨hg, fun x hx => ?_, .inl hversion, fun x hx => ?_, fun entities year hsum =>
      absurd hsum (hparts entities year)⟩
    · rcases hsingles x hx with rfl | rfl
      · exact ⟨⟨_, rfl⟩, _, rfl⟩
      · exact ⟨⟨_, rfl⟩, _, rfl⟩
    · rw [hf]
      exact (LedgerSource.onlyMisses_memory _ _ _ _).bind fun ledger => .ok _
  ready := by
    rw [run_lastYearFirst hseries hsingle, hf]
    exact List.length_eq_zero_iff.mp (by decide +kernel)
  fetching := by
    rw [run_lastYearFirst hseries hsingle, hf]
    exact List.length_eq_zero_iff.mp (by decide +kernel)

end OutOfOrder

end Service

end KeyFigures
