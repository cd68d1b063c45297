/-
  KeyFigures/Proofs/Service/Runs.lean
  ===================================
  **A service is sound throughout a run.**

  A service starts sound with an empty cache, and whatever happens keeps it
  sound as long as its source answers as before (`Service.Sound.run`).
-/
import KeyFigures.Proofs.Service.Calls
import KeyFigures.Proofs.Service.Turns

namespace KeyFigures.Service

variable {w : Surroundings} {h : History} {s : Service}

theorem startCache_sound (limits : CacheLimits) {now : Except TimeFault Moment}
    (hnow : ∀ fault, now = .error fault → w.shown fault) :
    (SharedCache.start limits now : SharedCache Nat).Sound w {} where
  entries := nofun
  misses := rfl
  registered := nofun
  flights := nofun
  clock := hnow

/-- A service with nothing under way is sound if its cache is. -/
theorem sound_of_idle
    (hanswers : ∀ entity year version, s.source.answer entity year version =
      w.fetched entity year version)
    (hquiet : s.journal.IsQuiet) (hcache : s.cache.Sound w {}) (hnext : s.nextTask = 0)
    (hcomputations : s.computations = []) (htasks : s.tasks = []) (hready : s.ready = [])
    (hendings : s.endings = []) : s.Sound w {} where
  answers := hanswers
  quiet := hquiet
  history := by simp
  next := hnext
  cache := hcache
  computations := by simp [hcomputations]
  tasks := by simp [htasks]
  numbers := by simp [htasks]
  turns := by simp [hready]
  once := by simp [held, hready, htasks]
  complete := by simp [hready]
  endings := by simp [hendings]

theorem cacheOf_eq {given : Option (SharedCache Nat)} (hgiven : ∀ c ∈ given, c.cache.size = 0)
    (own : SharedCache Nat) : cacheOf given own = (own, true) := by
  unfold cacheOf
  split
  · rw [if_pos (hgiven _ rfl)]
  · rfl

/-- A service that is given no entries starts sound. -/
theorem start_sound {registry : Registry} {source : LedgerSource} {settings : Settings}
    {given : Option (SharedCache Nat)} {now : Except TimeFault Moment} {requestId : Nat → String}
    (hgiven : ∀ c ∈ given, c.cache.size = 0)
    (hanswers : ∀ entity year version, source.answer entity year version =
      w.fetched entity year version)
    (hnow : ∀ fault, now = .error fault → w.shown fault) :
    (start registry source settings given now requestId).Sound w {} := by
  unfold start
  rw [cacheOf_eq hgiven]
  exact sound_of_idle hanswers rfl (startCache_sound _ hnow) rfl rfl rfl rfl rfl

/-! ### What can happen -/

theorem Sound.cancel (hs : s.Sound w h) (caller : String) : (s.cancel caller).Sound w h :=
  (hs.abandon _).thin List.filter_sublist (.refl _)

theorem Sound.letGo (hs : s.Sound w h) (entity year version : Value) :
    (s.letGo entity year version).Sound w h := by
  unfold Service.letGo
  dsimp only
  split
  · rename_i flight _
    have herased : { s with fetching := s.fetching.erase flight }.Sound w h := { hs with }
    exact herased.enqueue_all (by simp [Turn.Sound, Turn.holds])
  · exact hs

theorem Sound.addLedger (hs : s.Sound w h) (l : Ledger)
    (hanswers : ∀ entity year version,
      ((s.addLedger l).toOption.getD s).source.answer entity year version =
        w.fetched entity year version) : ((s.addLedger l).toOption.getD s).Sound w h := by
  revert hanswers
  unfold Service.addLedger
  cases s.source.add l with
  | error f => exact fun _ => hs
  | ok source => exact fun hanswers => { hs with answers := hanswers }

theorem Sound.save (hs : s.Sound w h) (d : Definition) : (s.save d).2.Sound w h := by
  have hrecorded := hs.record s.journal.context
    (s.registry.composed_saveRecorded d).keepsSetup
  unfold Service.save
  revert hrecorded
  rcases s.record s.journal.context (s.registry.saveRecorded d) with ⟨f | ⟨registry, d'⟩, s'⟩ <;>
    intro hrecorded
  · exact hrecorded
  · exact { hrecorded with }

theorem Sound.evict (hs : s.Sound w h) (key : CacheKey) : (s.evict key).Sound w h := by
  refine hs.withCache ?_
  rw [Cache.evict_eq]
  exact hs.cache.dropWhere _

theorem Sound.clear (hs : s.Sound w h) : s.clear.Sound w h := by
  refine hs.withCache ?_
  rw [Cache.clear_eq]
  exact hs.cache.dropWhere _

theorem Sound.invalidate (hs : s.Sound w h) (entity year : Value) :
    (s.invalidate entity year).2.Sound w h := by
  have hdropped : (s.withCache (s.cache.cache.invalidate entity year).1).Sound w h :=
    hs.withCache (hs.cache.dropWhere fun key => key.isOf entity year)
  exact hdropped.record s.journal.context (Cache.composed_noteInvalidated entity year _).keepsSetup

/-- Whatever happens keeps a service sound, as long as its source answers as
    before. -/
theorem Sound.step (hw : w.Coherent) (hs : s.Sound w h) (e : Event)
    (hcall : ∀ place c, e = .take place → s.ready[place]? = some (.call c) →
      w.taken c s.registry)
    (hanswers : ∀ entity year version, (s.step e).source.answer entity year version =
      w.fetched entity year version)
    (hclock : ∀ fault, e = .clock (.error fault) → w.shown fault) :
    ∃ h', (s.step e).Sound w h' := by
  cases e with
  | take place => exact hs.take hw fun c hready => hcall place c rfl hready
  | call c => exact ⟨h, hs.enqueue_all (by simp [Turn.Sound, Turn.holds])⟩
  | cancel caller => exact ⟨h, hs.cancel caller⟩
  | hold isHeld => exact ⟨h, { hs with }⟩
  | letGo entity year version => exact ⟨h, hs.letGo entity year version⟩
  | addLedger l => exact ⟨h, hs.addLedger l hanswers⟩
  | save d => exact ⟨h, hs.save d⟩
  | evict key => exact ⟨h, hs.evict key⟩
  | invalidate entity year => exact ⟨h, hs.invalidate entity year⟩
  | clear => exact ⟨h, hs.clear⟩
  | clock now =>
    refine ⟨h, hs.withCache { hs.cache with clock := ?_ }⟩
    rintro fault rfl
    exact hclock fault rfl

theorem Sound.run (hw : w.Coherent) {events : List Event} (hs : s.Sound w h)
    (hcall : ∀ c r, s.TakesUp events c r → w.taken c r)
    (hanswers : ∀ before after, events = before ++ after → ∀ entity year version,
      (s.run before).source.answer entity year version = w.fetched entity year version)
    (hclock : ∀ fault, .clock (.error fault) ∈ events → w.shown fault) :
    ∃ h', (s.run events).Sound w h' := by
  induction events generalizing s h with
  | nil => exact ⟨h, hs⟩
  | cons e events ih =>
    obtain ⟨h₁, hs₁⟩ := hs.step hw e
      (fun place c he hready => hcall c s.registry ⟨[], place, events, by rw [he]; rfl, hready, rfl⟩)
      (hanswers [e] events rfl)
      (fun fault he => hclock fault (he ▸ List.mem_cons_self))
    refine ih hs₁ ?_ ?_ fun fault hmem => hclock fault (List.mem_cons_of_mem e hmem)
    · rintro c r ⟨before, place, after, rfl, hready, hr⟩
      exact hcall c r ⟨e :: before, place, after, rfl, hready, hr⟩
    · rintro before after rfl
      exact hanswers (e :: before) after rfl

end KeyFigures.Service
