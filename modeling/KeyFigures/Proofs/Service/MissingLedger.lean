/-
  KeyFigures/Proofs/Service/MissingLedger.lean
  ============================================
  **A missing ledger is no failure, and nobody remembers it.**

  That a ledger is missing is told by the source, and travels as a failure
  through the flight to everybody who waits for it.  Each of them makes an
  invalid result of it, so that no call fails for it (`Explained.neverMissing`).
  The flight leaves nothing behind: who asks afterwards has it looked for once
  more (`Service.missing_ledger_neither_raised_nor_kept`).
-/
import KeyFigures.Proofs.Evaluation.Settled
import KeyFigures.Proofs.Service.Fetches
import KeyFigures.Proofs.Service.Requests

namespace KeyFigures

open Attempt (FailsOnly NeverMissing)

/-! ### Putting results together -/

theorem CacheKey.neverMissing_ofValues (entity year version formula : Value) :
    (CacheKey.ofValues entity year version formula).NeverMissing := by
  unfold CacheKey.ofValues
  split
  · exact .ok _
  · exact .error rfl

namespace Aggregate

/-- Only another failure is passed on. -/
theorem neverMissing_contribution (kind : ResultKind) (x : Attempt Result) :
    (contribution kind x).NeverMissing := by
  unfold contribution
  split
  · split
    · exact .ok _
    · rename_i hmissing
      exact .error (by simpa using hmissing)
  · rename_i hok
    intro f hf
    exact absurd hf (hok f)

theorem neverMissing_total (sum : Decimal) (results : List Result) :
    (total sum results).NeverMissing :=
  FailsOnly.foldlM (fun _ _ => .ofDecimal fun _ => rfl) _ sum

theorem neverMissing_vetted (r : Result) : (vetted r).NeverMissing := by
  have hreason : ∀ error, (reason error).NeverMissing := by
    intro error
    unfold reason
    split
    · unfold ErrorKind.text
      split
      · exact .ok _
      · exact .ok _
      · exact .ok _
      · exact .error rfl
    · exact .ok _
  unfold vetted
  cases r.error? with
  | none =>
    dsimp only
    split
    · exact .error rfl
    · exact .ok _
  | some error =>
    dsimp only
    split
    · exact .error rfl
    · exact (hreason error).bind fun _ => .ok _

theorem neverMissing_checked (results : List Result) :
    ∀ sum, (checked sum results).NeverMissing := by
  induction results with
  | nil => exact fun _ => .ok _
  | cons r rest ih =>
    intro sum
    exact (neverMissing_vetted r).bind fun _ => (neverMissing_total sum [r]).bind ih

theorem neverMissing_entitiesOf (entities : List Value) : (entitiesOf entities).NeverMissing := by
  unfold entitiesOf
  split
  · exact .error rfl
  · split
    · exact .error rfl
    · exact .ok _

theorem neverMissing_summed (kind : ResultKind) (results : List Result) :
    (summed kind results).NeverMissing :=
  (neverMissing_checked results .zero).bind fun _ => (neverMissing_total .zero results).bind
    fun _ => .ok _

end Aggregate

namespace Job

theorem neverMissing_check (job : Job) : job.check.NeverMissing := by
  match job with
  | .figure (.single _ _) => exact .ok _
  | .figure (.sum entities _) => exact (Aggregate.neverMissing_entitiesOf entities).map _
  | .series _ first last =>
    refine FailsOnly.map ?_ _
    unfold Series.range
    refine FailsOnly.bind (.ofTyped rfl) fun isReversed => ?_
    split
    · exact .error rfl
    · exact FailsOnly.bind (.ofTyped rfl) fun _ => FailsOnly.bind (.ofTyped rfl) fun _ => .ok _

theorem neverMissing_combine (job : Job) (kind : ResultKind) (results : List Result) :
    (job.combine kind results).NeverMissing := by
  match job with
  | .figure (.single _ _) => exact .ok _
  | .figure (.sum _ _) => exact (Aggregate.neverMissing_summed kind results).map _
  | .series _ _ _ => exact .ok _

/-- A response shows a result for an entity alone and a year: it is that figure,
    or the point of that year. -/
inductive Shows : Job → Response → Value → Value → Result → Prop where
  | figure {entity year : Value} {r : Result} :
    Shows (.figure (.single entity year)) (.figure r) entity year r
  | point {entity first last : Value} {points : List SeriesPoint} {p : SeriesPoint}
    (hp : p ∈ points) :
    Shows (.series [entity] first last) (.series points) entity (.int p.year) p.result

end Job

namespace Explained

variable {told : CacheKey → Attempt Result → Prop} {f : Compiled} {version : Value} {job : Job}
  {x : Attempt Response}

/-- No call fails because a ledger is missing. -/
theorem neverMissing (h : Explained told f version job x) : x.NeverMissing := by
  induction h with
  | heard hkey hx => exact (Aggregate.neverMissing_contribution _ _).map _
  | keyless hkey => exact .error (CacheKey.neverMissing_ofValues _ _ _ _ _ hkey)
  | refused hcheck => exact .error (Job.neverMissing_check _ _ hcheck)
  | failed hcheck hg _ ih => exact .error (ih _ rfl)
  | combined hcomposite hcheck hlength _ _ => exact Job.neverMissing_combine _ _ _

/-- A point of a series over one entity is the figure of its year. -/
theorem point {entity first last : Value} {points : List SeriesPoint} {p : SeriesPoint}
    (h : Explained told f version job x) (hjob : job = .series [entity] first last)
    (hx : x = .ok (.series points)) (hp : p ∈ points) :
    Explained told f version (.figure (.single entity (.int p.year))) (.ok (.figure p.result)) := by
  cases h with
  | heard hkey hy => cases hjob
  | keyless hkey => cases hjob
  | refused hcheck => cases hx
  | failed hcheck hg _ => cases hx
  | @combined _ results hcomposite hcheck hlength h =>
    subst hjob
    have hpoints : (((Job.yearsOf first last).zip results).map fun part =>
        (⟨part.1, part.2⟩ : SeriesPoint)) = points := by
      simpa [Job.combine] using hx
    subst hpoints
    obtain ⟨⟨year, r⟩, hmem, rfl⟩ := List.mem_map.mp hp
    obtain ⟨i, hi⟩ := List.mem_iff_getElem?.mp hmem
    obtain ⟨hyear, hr⟩ := List.getElem?_zip_eq_some.mp hi
    refine h i _ r ?_ hr
    simp [Job.parts, hyear, Figure.ofYear]

/-- What is shown for one entity is what was told of its key. -/
theorem shows {response : Response} {entity year : Value} {r : Result}
    (h : Explained told f version job (.ok response)) (hshows : job.Shows response entity year r) :
    ∃ key y, CacheKey.ofValues entity year version (.text f.key) = .ok key ∧ told key y ∧
      Aggregate.contribution f.kind y = .ok r := by
  have hsingle : Explained told f version (.figure (.single entity year)) (.ok (.figure r)) := by
    cases hshows with
    | figure => exact h
    | point hp => exact h.point rfl rfl hp
  rcases hsingle.single with ⟨key, y, hkey, htold, heq⟩ | ⟨e, -, heq⟩
  · refine ⟨key, y, hkey, htold, ?_⟩
    cases hy : Aggregate.contribution f.kind y with
    | error e =>
      rw [hy] at heq
      cases heq
    | ok r' =>
      rw [hy] at heq
      cases heq
      rfl
  · cases heq

end Explained

/-! ### Sources -/

namespace LedgerSource

/-- A source that either has a ledger or says that it is missing. -/
def OnlyMisses (source : LedgerSource) : Prop :=
  ∀ entity year version, (source.answer entity year version).FailsOnly fun f =>
    f.isMissingLedger = true

/-- A source that still has what another one has. -/
def Extends (source' source : LedgerSource) : Prop :=
  ∀ entity year version l, source.answer entity year version = .ok l →
    ∃ l', source'.answer entity year version = .ok l'

theorem answer_memory (ledgers : List Ledger) (entity year version : Value) :
    (memory ledgers).answer entity year version =
      match latest? ledgers entity year version with
      | some l => .ok l
      | none => .error (.missingLedger entity year version) := by
  unfold answer fetch
  dsimp only
  cases latest? ledgers entity year version <;> rfl

theorem onlyMisses_memory (ledgers : List Ledger) : (memory ledgers).OnlyMisses := by
  intro entity year version
  rw [answer_memory]
  split
  · exact .ok _
  · exact .error rfl

theorem latest?_append (ledgers : List Ledger) (l : Ledger) (entity year version : Value) :
    latest? (ledgers ++ [l]) entity year version =
      if l.entity.same entity && l.year.same year && (version.isNull || l.version.same version)
      then some l else latest? ledgers entity year version := by
  unfold latest?
  rw [List.filter_append]
  split
  · rename_i hmatches
    simp [hmatches]
  · rename_i hmatches
    simp [hmatches]

/-- A ledger that was added last is found. -/
theorem answer_append {l : Ledger} {version : Value} (ledgers : List Ledger)
    (hversion : (version.isNull || l.version.same version) = true) :
    (memory (ledgers ++ [l])).answer l.entity l.year version = .ok l := by
  rw [answer_memory, latest?_append, Value.same_self, Value.same_self, hversion]
  rfl

theorem extends_append (ledgers : List Ledger) (l : Ledger) :
    (memory (ledgers ++ [l])).Extends (memory ledgers) := by
  intro entity year version l' h
  rw [answer_memory] at h ⊢
  rw [latest?_append]
  by_cases hmatches : (l.entity.same entity && l.year.same year &&
      (version.isNull || l.version.same version)) = true
  · rw [if_pos hmatches]
    exact ⟨l, rfl⟩
  · rw [if_neg hmatches]
    exact ⟨l', h⟩

theorem Extends.refl (source : LedgerSource) : source.Extends source := fun _ _ _ l h => ⟨l, h⟩

theorem Extends.trans {source source' source'' : LedgerSource} (h : source''.Extends source')
    (h' : source'.Extends source) : source''.Extends source := by
  intro entity year version l hl
  obtain ⟨l', hl'⟩ := h' entity year version l hl
  exact h entity year version l' hl'

end LedgerSource

namespace Service

variable {b : Books} {h : History} {w : TracedCache Nat} {s : Service} {events : List Event}

/-- Only a ledger that is added changes the source, if that is in memory. -/
theorem source_cases (s : Service) (e : Event) : (s.step e).source = s.source ∨
    ∃ ledgers l, s.source = .memory ledgers ∧ (s.step e).source = .memory (ledgers ++ [l]) := by
  by_cases he : ∃ l, e = .addLedger l
  · obtain ⟨l, rfl⟩ := he
    simp only [step, addLedger, LedgerSource.add]
    split
    · cases hsource : s.source with
      | memory ledgers => exact .inr ⟨ledgers, l, rfl, rfl⟩
      | database db mapping => exact .inl rfl
    · exact .inl rfl
  · exact .inl (source_step fun l hl => he ⟨l, hl⟩)

/-- What a source has it keeps, and it goes on to say what is missing. -/
theorem source_run (s : Service) (events : List Event) :
    (s.run events).source.Extends s.source ∧
      (s.source.OnlyMisses → (s.run events).source.OnlyMisses) := by
  induction events using List.reverseRecOn with
  | nil => exact ⟨.refl _, id⟩
  | append_singleton events e ih =>
    rw [run_append]
    show ((s.run events).step e).source.Extends _ ∧ (_ → ((s.run events).step e).source.OnlyMisses)
    rcases (s.run events).source_cases e with heq | ⟨ledgers, l, hold, heq⟩ <;> rw [heq]
    · exact ih
    · rw [hold] at ih
      exact ⟨(LedgerSource.extends_append ledgers l).trans ih.1,
        fun _ => LedgerSource.onlyMisses_memory _⟩

end Service

/-! ### What is left behind -/

/-- A cache that was used from its beginning on, in which nothing is under way
    and which holds what evaluations can come to. -/
structure SharedCache.AtRest (c : SharedCache Nat) : Prop where
  reached : ∃ limits now es, c = ((SharedCache.start limits now).run es).1
  idle : c.flights = []
  settled : ∀ x ∈ c.cache.entries, x.result.IsSettled

theorem SharedCache.AtRest.start (limits : CacheLimits) (now : Except TimeFault Moment) :
    (SharedCache.start limits now : SharedCache Nat).AtRest :=
  ⟨⟨limits, now, [], rfl⟩, rfl, nofun⟩

namespace Service

variable {b : Books} {h : History} {w : TracedCache Nat} {s : Service} {events : List Event}

/-- Nothing is held of a key, and no flight is registered for it. -/
def Lacks (s : Service) (key : CacheKey) : Prop :=
  (∀ x ∈ s.cache.cache.entries, x.key ≠ key) ∧ s.cache.cache.flight? key = none

/-- The figure of a key was found out in a run, from an answer that the source
    gave then: the figure says that the ledger is missing exactly if the answer
    does, and the source has not lost what it had before. -/
def FindsOut (s : Service) (events : List Event) (key : CacheKey) (kind : ResultKind) (x : Result) :
    Prop :=
  ∃ c answer, s.Fetches events c answer ∧ c.IsFor key ∧
    (x.error? = some .missingLedgerData ↔ ∃ f, answer = .error f) ∧
    (∀ f, answer = .error f → x = .missing kind) ∧
    (∀ ledger, answer = .ok ledger →
      c.formula.tree.result ledger.balances c.formula.kind = .ok x) ∧
    ∀ l, s.source.answer c.entity c.year c.version = .ok l → ∃ l', answer = .ok l'

/-- What failures leave behind at a moment: nothing. -/
structure KeepsNoFailure (s : Service) : Prop where
  /-- Every result that is held is valid or a division by zero. -/
  settled : ∀ x ∈ s.cache.cache.entries, x.result.IsSettled
  /-- A computation that fails leaves no entry, no registration and no flight, so
      that nothing is known of its key unless there is a newer flight. -/
  failed : ∀ e c f, s.computesIn? e = some c → s.outcome c = .error f →
    (s.step e).cache.cache.entries = s.cache.cache.entries ∧
      (∀ p ∈ (s.step e).cache.cache.flights, p.2 ≠ c.flight) ∧
      (s.step e).cache.flight? c.flight = none ∧
      (s.cache.cache.flight? c.key = some c.flight → (s.step e).Lacks c.key)
  /-- Who asks for what is neither held nor under way starts a computation. -/
  again : ∀ e n key, s.cacheEvents e = [.request n key] → s.cache.get? key = .ok none →
    s.cache.cache.flight? key = none →
    ∃ c, (s.step e).computations = s.computations ++ [c] ∧ .takeOff c.flight ∈ (s.step e).ready ∧
      c.IsFor key
  /-- A source in memory has a ledger that is added. -/
  added : ∀ ledgers l version, s.source = .memory ledgers → l.entity.isKey = true →
    l.year.isKey = true → (version.isNull || l.version.same version) = true →
    (s.step (.addLedger l)).source.answer l.entity l.year version = .ok l

theorem isSettled_of_comesTo {c : Computation} {answer : Attempt Ledger} {r : Result}
    (hr : c.comesTo answer = .ok r) : r.IsSettled := by
  obtain ⟨ledger, -, hresult⟩ := Attempt.bind_eq_ok.mp hr
  exact Term.isSettled_of_result hresult

/-- The figure that a caller makes of what a computation comes to. -/
theorem Fetches.findsOut {c : Computation} {answer : Attempt Ledger} {key : CacheKey}
    {kind : ResultKind} {x : Result} (hf : s.Fetches events c answer) (hkey : c.IsFor key)
    (hsource : s.source.OnlyMisses) (hx : Aggregate.contribution kind (c.comesTo answer) = .ok x) :
    s.FindsOut events key kind x := by
  have hmoment := hf
  obtain ⟨before, e, after, -, -, hanswer⟩ := hmoment
  obtain ⟨hextends, honly⟩ := s.source_run before
  refine ⟨c, answer, hf, hkey, ?_⟩
  have hseen : ∀ l, s.source.answer c.entity c.year c.version = .ok l → ∃ l', answer = .ok l' :=
    fun l hl => hanswer ▸ hextends _ _ _ l hl
  cases answer with
  | error f =>
    have hmissing : f.isMissingLedger = true := honly hsource _ _ _ f hanswer
    have hcomes : c.comesTo (.error f) = .error f := rfl
    rw [hcomes] at hx
    obtain rfl : Result.missing kind = x := by
      simpa [Aggregate.contribution, hmissing] using hx
    exact ⟨⟨fun _ => ⟨f, rfl⟩, fun _ => rfl⟩, fun _ _ => rfl, nofun, hseen⟩
  | ok ledger =>
    have hcomes : c.comesTo (.ok ledger) = c.formula.tree.result ledger.balances c.formula.kind := rfl
    rw [hcomes] at hx
    cases hresult : c.formula.tree.result ledger.balances c.formula.kind with
    | error f =>
      have hother := Term.neverMissing_result _ _ _ f hresult
      simp [hresult, Aggregate.contribution, hother] at hx
    | ok r =>
      obtain rfl : r = x := by simpa [hresult, Aggregate.contribution] using hx
      refine ⟨⟨fun herror => absurd herror (Term.isSettled_of_result hresult).error_ne, nofun⟩,
        nofun, ?_, hseen⟩
      rintro _ ⟨⟩
      exact hresult

/-- The figure that a caller makes of what its task is told. -/
theorem Told.findsOut {key : CacheKey} {y : Attempt Result} {kind : ResultKind} {x : Result}
    (ht : s.Told events key y) (hsource : s.source.OnlyMisses)
    (hsettled : ∀ before, ∀ e ∈ (s.run before).cache.cache.entries, e.result.IsSettled)
    (hx : Aggregate.contribution kind y = .ok x) :
    (s.Holds events key x ∧ x.IsSettled) ∨ s.FindsOut events key kind x := by
  cases ht with
  | timeless => cases hx
  | held hheld =>
    obtain rfl := Except.ok.inj hx
    have hkept := hheld
    obtain ⟨before, after, e, -, he, -, rfl⟩ := hkept
    exact .inl ⟨hheld, hsettled before e he⟩
  | fetched hf hkey => exact .inr (hf.findsOut hkey hsource hx)

theorem TakesUp.append {before : List Event} {c : Call} {r : Registry} (ht : s.TakesUp before c r)
    (after : List Event) : s.TakesUp (before ++ after) c r := by
  obtain ⟨before', place, after', rfl, hready, hr⟩ := ht
  exact ⟨before', place, after' ++ after, by simp, hready, hr⟩

theorem TakesUp.after {before after : List Event} {c : Call} {r : Registry}
    (ht : (s.run before).TakesUp after c r) : s.TakesUp (before ++ after) c r := by
  obtain ⟨before', place, after', rfl, hready, hr⟩ := ht
  exact ⟨before ++ before', place, after', by simp, by rwa [run_append], by rwa [run_append]⟩

theorem TakesUp.made {c : Call} {r : Registry} (ht : s.TakesUp events c r) (hready : s.calls = []) :
    .call c ∈ events := by
  have hmem := ht.mem
  rw [hready, List.nil_append] at hmem
  obtain ⟨e, he, hcall⟩ := List.mem_filterMap.mp hmem
  cases e with
  | call c' =>
    obtain rfl := Option.some.inj hcall
    exact he
  | _ => cases hcall

/-! ### From the start on -/

variable {registry : Registry} {source : LedgerSource} {settings : Settings}
  {given : Option (SharedCache Nat)} {now : Except TimeFault Moment} {requestId : Nat → String}

/-- A service starts with a cache at rest if it is given one. -/
theorem start_atRest (hgiven : ∀ c ∈ given, c.AtRest) :
    (start registry source settings given now requestId).cache.AtRest := by
  show (cacheOf given (.start (.ofSettings settings) now)).1.AtRest
  unfold cacheOf
  split
  · split
    · exact .start _ _
    · exact hgiven _ rfl
  · exact .start _ _

/-- A service with nothing under way has a traced cache, and nothing to account
    for. -/
theorem start_traced (hgiven : ∀ c ∈ given, c.AtRest) :
    ∃ w, ∀ b : Books, b.first = 0 →
      (start registry source settings given now requestId).Accounted b {} ∧
        (start registry source settings given now requestId).Traced b {} w := by
  have hrest : (start registry source settings given now requestId).cache.AtRest :=
    start_atRest hgiven
  obtain ⟨⟨limits, now', es, hreached⟩, hidle, -⟩ := hrest
  have hshared : (TracedCache.reached limits now' es).shared =
      (start registry source settings given now requestId).cache :=
    (TracedCache.reached_shared limits now' es).trans hreached.symm
  have hinv := TracedCache.reached_inv (ι := Nat) limits now' es
  refine ⟨_, fun b hfirst => ⟨accounted_of_idle rfl ⟨hfirst.le, nofun⟩ rfl rfl rfl rfl,
    hinv, hshared, fun x hx => ?_, nofun⟩⟩
  -- who waits waits for a flight, and there is none
  have hroute := hinv.waits x hx
  rw [SharedCache.routes, hshared, hidle] at hroute
  cases hroute

theorem Accounted.settled_run (hs : s.Accounted b h) (hw : s.Traced b h w)
    (hsettled : ∀ x ∈ s.cache.cache.entries, x.result.IsSettled) (events : List Event) :
    ∀ x ∈ (s.run events).cache.cache.entries, x.result.IsSettled := by
  intro x hx
  rcases hs.entries_run hw hx with hold | ⟨c, answer, -, -, hr⟩
  · exact hsettled x hold
  · exact isSettled_of_comesTo hr

theorem Accounted.keepsNoFailure (hs : s.Accounted b h) (hw : s.Traced b h w)
    (hsettled : ∀ x ∈ s.cache.cache.entries, x.result.IsSettled) : s.KeepsNoFailure where
  settled := hsettled
  failed e c f hc hf := by
    have hcache : (s.step e).cache = (w.step (.land c.flight (.error f))).1.shared := by
      rw [cache_step hs.quiet, cacheEvents_of_computesIn? hc, landing, hf, run_single,
        TracedCache.step_shared, hw.shared]
    obtain ⟨hentries, -, hnumbers, hgone⟩ := hw.inv.land_failed c.flight f
    unfold Lacks
    rw [hcache, ← hw.shared]
    exact ⟨hentries, hnumbers, hgone, fun hreg => hw.inv.land_failed_registered hreg f⟩
  again _ _ _ := step_launches
  added ledgers l version hsource hentity hyear hversion := by
    have hstep : (s.step (.addLedger l)).source = .memory (ledgers ++ [l]) := by
      simp [Service.step, Service.addLedger, LedgerSource.add, hsource, hentity, hyear, Except.map,
        Except.toOption]
    rw [hstep]
    exact LedgerSource.answer_append ledgers hversion

/-- **A missing ledger is neither raised nor kept.**  Take a service over a source
    that has ledgers or says that they are missing, and two runs of it, one after
    the other.  At the moment between them no failure has left anything behind.
    A call that was made since then, and whose formula compiles, does not fail
    for a missing ledger.  What its response shows for one entity and a year was
    held by the cache, which holds results only, or was found out in the second
    run: it then says that the ledger is missing exactly if the source said so.
    If the cache had nothing of its key at the moment between, it was found out in
    any case, with at least the ledgers that there were at that moment. -/
theorem missing_ledger_neither_raised_nor_kept (hsource : source.OnlyMisses)
    (hgiven : ∀ c ∈ given, c.AtRest) (before after : List Event) :
    let s₀ := start registry source settings given now requestId
    let s := s₀.run before
    s.KeepsNoFailure ∧
      ∀ e ∈ (s.run after).endings, (∀ c, .call c ∈ before → c.caller ≠ e.caller) →
        ∃ c r, s₀.TakesUp (before ++ after) c r ∧ c.caller = e.caller ∧
          ∀ f job, r.prepare c = .ok (f, job) → e.outcome.NeverMissing ∧
            ∀ response entity year x, e.outcome = .ok response →
              job.Shows response entity year x →
              ∃ key, CacheKey.ofValues entity year c.version (.text f.key) = .ok key ∧
                ((s.Holds after key x ∧ x.IsSettled) ∨ s.FindsOut after key f.kind x) ∧
                (s.Lacks key → s.FindsOut after key f.kind x) := by
  intro s₀ s
  obtain ⟨w₀, hstart⟩ : ∃ w₀, ∀ b : Books, b.first = 0 → s₀.Accounted b {} ∧ s₀.Traced b {} w₀ :=
    start_traced hgiven
  obtain ⟨told, htold⟩ : ∃ told, told = (w₀.run (s₀.cacheTrace before)).2 := ⟨_, rfl⟩
  obtain ⟨hs₀, hw₀⟩ := hstart (.ofDeliveries told (s₀.TakesUp before) 0) rfl
  obtain ⟨h, -, hs, hw, hasks⟩ := hs₀.run hw₀ (fun c r (htaken : s₀.TakesUp before c r) => htaken)
    fun d hd => ⟨d, htold ▸ hd, rfl, rfl, rfl⟩
  have hsettled : ∀ events, ∀ x ∈ (s.run events).cache.cache.entries, x.result.IsSettled := by
    intro events
    have hbefore := hs₀.settled_run hw₀ (start_atRest hgiven).settled before
    exact hs.settled_run hw hbefore events
  refine ⟨hs.keepsNoFailure hw (hsettled []), fun e he hcaller => ?_⟩
  have hwithin : (Books.ofDeliveries told (s₀.TakesUp before) 0).Within (.ofDeliveries
      (told ++ ((w₀.run (s₀.cacheTrace before)).1.run (s.cacheTrace after)).2)
      (s₀.TakesUp (before ++ after)) 0) :=
    Books.ofDeliveries_within fun c r htaken => htaken.append after
  obtain ⟨h', hg, hs', -, -⟩ := (hs.widen hwithin).run (hw.widen hwithin)
    (fun c r (htaken : s.TakesUp after c r) => TakesUp.after htaken)
    fun d hd => ⟨d, List.mem_append_right _ hd, rfl, rfl, rfl⟩
  obtain ⟨c, r, htaken, hname, hcases⟩ := ((hs'.endings e he).comesFrom_since hg hs.history
    (fun d hd => (hasks d (htold ▸ hd)).1) fun c r htaken => hcaller c (htaken.made rfl))
  refine ⟨c, r, htaken, hname, fun f job hprepared => ?_⟩
  rcases hcases with ⟨f', hfail, -⟩ | ⟨f', job', hprepared', hx⟩
  · rw [hprepared] at hfail
    cases hfail
  · rw [hprepared] at hprepared'
    obtain ⟨rfl, rfl⟩ := Prod.mk.inj (Except.ok.inj hprepared')
    refine ⟨hx.neverMissing, fun response entity year x hresponse hshows => ?_⟩
    rw [hresponse] at hx
    obtain ⟨key, y, hkey, ⟨d, hd, hlater, rfl, rfl⟩, hfigure⟩ := hx.shows hshows
    have honly := (s₀.source_run before).2 hsource
    refine ⟨_, hkey, (hs.told_run hw d hd).findsOut honly hsettled hfigure, fun hlacks => ?_⟩
    rcases hs.told_fresh hw hlacks.1 hlacks.2 hd hlater with
      ⟨fault, heq⟩ | ⟨c, answer, hf, hfor, heq⟩ <;> rw [heq] at hfigure
    · cases hfigure
    · exact hf.findsOut hfor honly hfigure

/-- A caller asks for the figure of an entity that has no ledger yet. -/
def askingB (caller : String) : Call := .single caller (.text "B") (.int 2024) oneAndAHalf .null

/-- The first caller is told that the ledger is missing; it is added. -/
def addedLater : List Event :=
  askedFor (askingB "a") ++ [.addLedger ⟨.text "B", .int 2024, .null, []⟩]

/-- The second caller is told the figure, which was found out for it. -/
theorem missing_ledger_neither_raised_nor_kept_added :
    small.source.OnlyMisses ∧ (∀ c ∈ (none : Option (SharedCache Nat)), c.AtRest) ∧
      (small.run (addedLater ++ askedFor (askingB "b"))).endings.map (fun e => (e.caller, e.outcome)) =
        [("a", .ok (.figure (.missing .amount))),
          ("b", .ok (.figure ⟨.value (.finite false 15 (-1)), .amount, []⟩))] ∧
      ∃ key, (small.run addedLater).Lacks key ∧ (small.run addedLater).FindsOut (askedFor (askingB "b"))
        key .amount ⟨.value (.finite false 15 (-1)), .amount, []⟩ := by
  have honly : small.source.OnlyMisses := LedgerSource.onlyMisses_memory _
  have hgiven : ∀ c ∈ (none : Option (SharedCache Nat)), c.AtRest := nofun
  obtain ⟨f, hfe⟩ : ∃ f, f = numberFormula (.finite false 15 (-1)) (.finite false 15 (-1)) := ⟨_, rfl⟩
  obtain ⟨job, hjob⟩ : ∃ job, job = Job.figure (.single (.text "B") (.int 2024)) := ⟨_, rfl⟩
  have hf (caller : String) : small.registry.prepare (askingB caller) = .ok (f, job) := by
    rw [hfe, hjob]
    exact prepare_oneAndAHalf rfl rfl
  have hfirst : small.run addedLater = ((small.begun (askingB "a") f job).run
      (List.replicate 11 (.take 0))).step (.addLedger ⟨.text "B", .int 2024, .null, []⟩) := by
    rw [addedLater, run_append, run_askedFor (hf "a")]
    rfl
  have hidle : (small.run addedLater).ready = [] := by
    rw [hfirst, hfe, hjob]
    exact List.length_eq_zero_iff.mp (by decide +kernel)
  have hsecond : small.run (addedLater ++ askedFor (askingB "b")) =
      ((small.run addedLater).begun (askingB "b") f job).run (List.replicate 11 (.take 0)) := by
    have hregistry : (small.run addedLater).registry = small.registry :=
      run_keeps registry (by simp [addedLater, askedFor, registry_step])
    rw [run_append, askedFor, run_append, run_call_take hidle (hregistry ▸ hf "b")]
  have hendings : (small.run (addedLater ++ askedFor (askingB "b"))).endings.map
      (fun e => (e.caller, e.outcome)) = [("a", .ok (.figure (.missing .amount))),
        ("b", .ok (.figure ⟨.value (.finite false 15 (-1)), .amount, []⟩))] := by
    rw [hsecond, hfirst, hfe, hjob]
    decide +kernel
  have hlacks : ∀ key, (small.run addedLater).Lacks key := by
    have hentries : (small.run addedLater).cache.cache.entries = [] := by
      rw [hfirst, hfe, hjob]
      exact List.length_eq_zero_iff.mp (by decide +kernel)
    have hflights : (small.run addedLater).cache.cache.flights = [] := by
      rw [hfirst, hfe, hjob]
      exact List.length_eq_zero_iff.mp (by decide +kernel)
    intro key
    unfold Lacks Cache.flight?
    rw [hentries, hflights]
    exact ⟨nofun, rfl⟩
  refine ⟨honly, hgiven, hendings, ?_⟩
  obtain ⟨e, he, heq⟩ := List.mem_map.mp (hendings ▸ List.mem_cons_of_mem _ List.mem_cons_self :
    ("b", _) ∈ (small.run (addedLater ++ askedFor (askingB "b"))).endings.map
      fun e => (e.caller, e.outcome))
  obtain ⟨hcaller, houtcome⟩ := Prod.mk.inj heq
  rw [run_append] at he
  obtain ⟨c, r, htaken, hname, hanswer⟩ :=
    (missing_ledger_neither_raised_nor_kept honly hgiven addedLater (askedFor (askingB "b"))).2 e he
      (by simp [hcaller, addedLater, askedFor, askingB, Call.single])
  obtain rfl : r = small.registry :=
    htaken.registry_eq (by simp [addedLater, askedFor])
  obtain rfl : c = askingB "b" := by
    have hmade : c = askingB "a" ∨ c = askingB "b" := by
      simpa [addedLater, askedFor] using htaken.made rfl
    refine hmade.resolve_left ?_
    rintro rfl
    rw [hcaller] at hname
    exact absurd hname (by decide)
  obtain ⟨-, hshown⟩ := hanswer f job (hf "b")
  rw [hjob] at hshown
  obtain ⟨key, -, -, hfound⟩ := hshown _ _ _ _ houtcome .figure
  refine ⟨key, hlacks key, ?_⟩
  have hkind : f.kind = .amount := by rw [hfe]; rfl
  rw [hkind] at hfound
  exact hfound (hlacks key)

end Service

end KeyFigures
