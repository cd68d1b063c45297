/-
  KeyFigures/Proofs/Service/Endings.lean
  ======================================
  **Every call comes to its end.**

  However turns, fetches and what comes from outside follow upon each other, no
  call gets stuck (`Service.Live.run`): when nothing is ready and no fetch is
  waited for, every caller that called and did not give up has an answer
  (`Service.exists_ending`).
-/
import KeyFigures.Proofs.Service.Liveness
import KeyFigures.Proofs.Service.Runs
import KeyFigures.Proofs.Service.Tower

namespace KeyFigures.Service

open scoped List

variable {w : Surroundings} {h : History} {s : Service} {awaited : String → Prop}

/-- Whose call is waited for after an event. -/
def Event.awaits (e : Event) (awaited : String → Prop) (name : String) : Prop :=
  match e with
  | .call c => awaited name ∨ c.caller = name
  | .cancel caller => awaited name ∧ name ≠ caller
  | _ => awaited name

/-! ### What can happen -/

/-- The order of the turns does not matter. -/
theorem Live.perm {turns : List Turn} (hl : s.Live awaited none) (hperm : turns ~ s.ready) :
    { s with ready := turns }.Live awaited none := by
  refine { hl with due := fun t ht => ?_, under := fun name hname => ?_ }
  · refine .inr (((hl.due t ht).resolve_left nofun).mono hperm.symm.subset
      (fun f hf hwaits => .inl ⟨f, hf, hwaits⟩) fun place => ?_)
    unfold held
    rw [hperm.countP_eq]
  · rcases hl.under name hname with ⟨turn, hturn, hcall⟩ | hunder
    · exact .inl ⟨turn, hturn.imp_right fun hmem => hperm.symm.subset hmem, hcall⟩
    · exact .inr hunder

theorem Live.take (hl : s.Live awaited none) (hs : s.Sound w h) (place : Nat)
    (hcall : ∀ c, s.ready[place]? = some (.call c) → w.taken c s.registry) :
    (s.take place).Live awaited none := by
  unfold Service.take
  split
  · rename_i turn hturn
    obtain ⟨hlt, hget⟩ := List.getElem?_eq_some_iff.mp hturn
    have hperm : turn :: s.ready.eraseIdx place ~ s.ready :=
      hget ▸ List.getElem_cons_eraseIdx_perm hlt
    obtain ⟨hrest, -, hfits⟩ := hs.takeOut hturn
    refine Live.perform (hl.perm hperm) hrest hfits fun c hc => hcall c ?_
    rw [hturn, hc]
  · exact hl

/-- Who calls is waited for from then on. -/
theorem Live.call (hl : s.Live awaited none) (c : Call) :
    (s.submit [c]).Live (Event.awaits (.call c) awaited) none := by
  have hsubmitted : (s.submit [c]).Live awaited none := hl.enqueue _
  refine { hsubmitted with under := fun name hname => ?_ }
  rcases hname with hname | rfl
  · exact hsubmitted.under name hname
  · exact .inl ⟨.call c, .inr (List.mem_append_right _ List.mem_cons_self), beq_self_eq_true _⟩

theorem owner_eq_of_isOf {t : Task} {name : String} (h : t.isOf name = true) :
    ∃ saved, t.owner = .caller name saved := by
  unfold Task.isOf at h
  split at h
  · rename_i saved howner
    exact ⟨saved, by rw [howner, beq_iff_eq.mp h]⟩
  · cases h

/-- The calls of somebody who is not waited for are given up, with all that is
    under way for them. -/
theorem Live.giveUpCalls (hl : s.Live awaited none) (hs : s.Sound w h) {caller : String}
    (hnot : ∀ name, awaited name → name ≠ caller) {tops : List Task}
    (htops : tops = s.tasks.filter (·.isOf caller)) :
    (s.abandon (tops ++ tops.flatMap fun t => s.within t.number)).Live awaited none := by
  have hcases : ∀ u ∈ tops ++ tops.flatMap fun t => s.within t.number,
      (u ∈ s.tasks ∧ ∃ saved, u.owner = .caller caller saved) ∨
        ∃ t ∈ tops, u ∈ s.within t.number := by
    intro u hu
    rcases List.mem_append.mp hu with hu | hu
    · rw [htops] at hu
      obtain ⟨hmem, hof⟩ := List.mem_filter.mp hu
      exact .inl ⟨hmem, owner_eq_of_isOf hof⟩
    · exact .inr (List.mem_flatMap.mp hu)
  refine hl.giveUp hs.numbers (fun u hu => ?_) (fun u hu n place howner => ?_)
    fun u hu name hname => ?_
  · rcases hcases u hu with ⟨hmem, -⟩ | ⟨t, -, hmem⟩
    · exact hmem
    · exact (mem_within hmem).1
  · rcases hcases u hu with ⟨-, saved, hcaller⟩ | ⟨t, ht, hmem⟩
    · rw [howner] at hcaller
      cases hcaller
    · refine .inr (List.any_eq_true.mpr ?_)
      rcases owner_within hmem howner with rfl | hdrops
      · exact ⟨t, List.mem_append_left _ ht, beq_self_eq_true _⟩
      · obtain ⟨p, hp, hnumber⟩ := List.any_eq_true.mp hdrops
        exact ⟨p, List.mem_append_right _ (List.mem_flatMap.mpr ⟨t, ht, hp⟩), hnumber⟩
  · rcases hcases u hu with ⟨-, saved, hcaller⟩ | ⟨t, -, hmem⟩
    · unfold Task.isOf
      rw [hcaller]
      exact beq_false_of_ne (hnot name hname).symm
    · obtain ⟨-, hpart | ⟨p, -, -, hpart⟩⟩ := mem_within hmem
      · exact isOf_eq_false_of_part hpart name
      · exact isOf_eq_false_of_part hpart name

/-- A turn that takes up a call moves no task and stands for no part. -/
theorem Live.dropCalls (hl : s.Live awaited none) {caller : String}
    (hnot : ∀ name, awaited name → name ≠ caller) :
    { s with ready := s.ready.filter fun turn => !turn.isCallOf caller }.Live awaited none := by
  have hkept : ∀ turn ∈ s.ready, turn.isCallOf caller = false →
      turn ∈ s.ready.filter fun (turn : Turn) => !turn.isCallOf caller :=
    fun turn hturn hcall => List.mem_filter.mpr ⟨hturn, by simp [hcall]⟩
  refine { hl with due := fun t ht => ?_, under := fun name hname => ?_ }
  · rcases (hl.due t ht).resolve_left (by simp) with
      ⟨turn, hturn, hmoves⟩ | hflight | ⟨hopen, hparts⟩
    · refine .inr (.inl ⟨turn, hkept turn hturn ?_, hmoves⟩)
      cases turn <;> first | rfl | cases hmoves
    · exact .inr (.inr (.inl hflight))
    · refine .inr (.inr (.inr ⟨hopen, fun place hplace => (hparts place hplace).trans ?_⟩))
      have hcount : (s.ready.filter fun (turn : Turn) => !turn.isCallOf caller).countP
          (·.holds t.number place) = s.ready.countP (·.holds t.number place) := by
        rw [List.countP_filter]
        refine List.countP_congr fun turn _ => ?_
        cases turn <;> simp [Turn.holds, Turn.isCallOf]
      exact Nat.add_le_add_right hcount.ge _
  · rcases hl.under name hname with ⟨turn, hturn, hcall⟩ | hunder
    · refine .inl ⟨turn, .inr (hkept turn (hturn.resolve_left (by simp)) ?_), hcall⟩
      unfold Turn.isCallOf at hcall ⊢
      split at hcall
      · rw [beq_iff_eq.mp hcall]
        exact beq_false_of_ne (hnot name hname)
      · rfl
    · exact .inr hunder

/-- Who gives up is not waited for any more, and all others get on as before. -/
theorem Live.cancel (hl : s.Live awaited none) (hs : s.Sound w h) (caller : String) :
    (s.cancel caller).Live (Event.awaits (.cancel caller) awaited) none := by
  have hweaker : s.Live (Event.awaits (.cancel caller) awaited) none :=
    { hl with under := fun name hname => hl.under name hname.1 }
  have hnot : ∀ name, Event.awaits (.cancel caller) awaited name → name ≠ caller :=
    fun _ hname => hname.2
  exact (hweaker.giveUpCalls hs hnot rfl).dropCalls hnot

/-- The cache may drop what it holds. -/
theorem Live.thin (hl : s.Live awaited none) {cache : Cache}
    (hflights : cache.flights.Sublist s.cache.cache.flights) :
    (s.withCache cache).Live awaited none :=
  hl.withCache rfl hflights fun f hf _ hn => ⟨f, hf, hn⟩

/-- Whatever happens, no call gets stuck. -/
theorem Live.step (hl : s.Live awaited none) (hs : s.Sound w h) (e : Event)
    (hcall : ∀ place c, e = .take place → s.ready[place]? = some (.call c) →
      w.taken c s.registry) : (s.step e).Live (e.awaits awaited) none := by
  cases e with
  | take place => exact hl.take hs place fun c hready => hcall place c rfl hready
  | call c => exact hl.call c
  | cancel caller => exact hl.cancel hs caller
  | hold isHeld => exact { hl with }
  | letGo entity year version =>
    show (s.letGo entity year version).Live awaited none
    unfold letGo letFlightGo
    dsimp only
    split
    · rename_i flight _
      have herased : Live awaited none { s with fetching := s.fetching.erase flight } := { hl with }
      exact herased.enqueue _
    · exact hl
  | addLedger l =>
    show ((s.addLedger l).toOption.getD s).Live awaited none
    unfold addLedger
    cases s.source.add l with
    | error f => exact hl
    | ok source => exact { hl with }
  | save d =>
    show (s.save d).2.Live awaited none
    have hrecorded : (s.record s.journal.context (s.registry.saveRecorded d)).2.Live awaited none :=
      { hl with }
    unfold save
    revert hrecorded
    rcases s.record s.journal.context (s.registry.saveRecorded d) with ⟨f | ⟨registry, d'⟩, s'⟩ <;>
      intro hrecorded
    · exact hrecorded
    · exact { hrecorded with }
  | evict key => exact hl.thin List.filter_sublist
  | invalidate entity year =>
    have hdropped : (s.withCache (s.cache.cache.invalidate entity year).1).Live awaited none :=
      hl.thin List.filter_sublist
    exact { hdropped with }
  | clear => exact hl.thin (List.nil_sublist _)
  | clock now => exact { hl with }

/-! ### Runs -/

/-- Whose call is waited for after a run. -/
def awaitedAfter (awaited : String → Prop) (events : List Event) : String → Prop :=
  events.foldl (fun awaited e => e.awaits awaited) awaited

theorem awaitedAfter_of_kept {events : List Event} {name : String} (hname : awaited name)
    (hkept : .cancel name ∉ events) : awaitedAfter awaited events name := by
  induction events generalizing awaited with
  | nil => exact hname
  | cons e events ih =>
    rw [List.mem_cons, not_or] at hkept
    refine ih ?_ hkept.2
    cases e with
    | call c => exact .inl hname
    | cancel caller => exact ⟨hname, fun heq => hkept.1 (congrArg _ heq)⟩
    | _ => exact hname

/-- Who called and did not give up is waited for. -/
theorem awaitedAfter_of_made {events : List Event} {c : Call} (hc : c ∈ made events)
    (hkept : .cancel c.caller ∉ events) : awaitedAfter awaited events c.caller := by
  induction events generalizing awaited with
  | nil => cases hc
  | cons e events ih =>
    rw [List.mem_cons, not_or] at hkept
    rcases List.mem_filterMap.mp hc with ⟨e', he', hcall⟩
    rcases List.mem_cons.mp he' with rfl | he'
    · show awaitedAfter (e'.awaits awaited) events c.caller
      refine awaitedAfter_of_kept ?_ hkept.2
      cases e' <;> cases hcall
      exact .inr rfl
    · exact ih (List.mem_filterMap.mpr ⟨e', he', hcall⟩) hkept.2

/-- No call gets stuck in a run over an unchanging source. -/
theorem Live.run (hw : w.Coherent) {events : List Event} (hl : s.Live awaited none)
    (hs : s.Sound w h) (hcall : ∀ c r, s.TakesUp events c r → w.taken c r)
    (hanswers : ∀ before after, events = before ++ after → ∀ entity year version,
      (s.run before).source.answer entity year version = w.fetched entity year version)
    (hclock : ∀ fault, .clock (.error fault) ∈ events → w.shown fault) :
    (s.run events).Live (awaitedAfter awaited events) none := by
  induction events using List.reverseRecOn generalizing awaited with
  | nil => exact hl
  | append_singleton events e ih =>
    have hbefore : (s.run events).Live (awaitedAfter awaited events) none := by
      refine ih hl ?_ ?_ fun fault hmem => hclock fault (List.mem_append_left _ hmem)
      · rintro c r ⟨before, place, after, rfl, hready, hr⟩
        exact hcall c r ⟨before, place, after ++ [e], by simp, hready, hr⟩
      · rintro before after rfl
        exact hanswers before (after ++ [e]) (by simp)
    obtain ⟨h', hsound⟩ : ∃ h', (s.run events).Sound w h' := by
      refine hs.run hw ?_ ?_ fun fault hmem => hclock fault (List.mem_append_left _ hmem)
      · rintro c r ⟨before, place, after, rfl, hready, hr⟩
        exact hcall c r ⟨before, place, after ++ [e], by simp, hready, hr⟩
      · rintro before after rfl
        exact hanswers before (after ++ [e]) (by simp)
    have hstep := hbefore.step hsound e fun place c he hready =>
      hcall c _ ⟨events, place, [], by rw [he], hready, rfl⟩
    have hafter : awaitedAfter awaited (events ++ [e]) =
        e.awaits (awaitedAfter awaited events) := List.foldl_append
    rw [run_append, hafter]
    exact hstep

/-- A service that is given no entries starts with nothing that could get
    stuck. -/
theorem live_start {registry : Registry} {source : LedgerSource} {settings : Settings}
    {given : Option (SharedCache Nat)} {now : Except TimeFault Moment} {requestId : Nat → String}
    (hgiven : ∀ c ∈ given, c.cache.size = 0) :
    (start registry source settings given now requestId).Live (fun _ => False) none := by
  unfold start
  rw [cacheOf_eq hgiven]
  exact {
    computed := fun _ hn => absurd hn List.not_mem_nil
    numbers := List.nodup_nil
    registered := fun _ hr => absurd hr List.not_mem_nil
    routes := List.nodup_nil
    due := fun _ ht => absurd ht List.not_mem_nil
    under := fun _ hname => hname.elim }

/-- When a run over an unchanging source has come to rest, everybody who called
    and did not give up has an answer. -/
theorem exists_ending {limit : Nat} (hlimit : 1 ≤ limit) (hw : w.Coherent) {events : List Event}
    (htower : s.tower.Orderly limit []) (hl : s.Live awaited none) (hs : s.Sound w h)
    (hcall : ∀ c r, s.TakesUp events c r → w.taken c r)
    (hanswers : ∀ before after, events = before ++ after → ∀ entity year version,
      (s.run before).source.answer entity year version = w.fetched entity year version)
    (hclock : ∀ fault, .clock (.error fault) ∈ events → w.shown fault)
    (hready : (s.run events).ready = []) (hfetching : (s.run events).fetching = []) {c : Call}
    (hc : c ∈ made events) (hkept : .cancel c.caller ∉ events) :
    ∃ e ∈ (s.run events).endings, e.caller = c.caller := by
  obtain ⟨h', hsound⟩ := hs.run hw hcall hanswers hclock
  have hlive := hl.run hw hs hcall hanswers hclock
  have hdone := computations_eq_nil (orderly_run events htower) hlimit hready hfetching
  exact hlive.exists_ending hsound hready hdone (awaitedAfter_of_made hc hkept)

end KeyFigures.Service
