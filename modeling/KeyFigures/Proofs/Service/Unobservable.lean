/-
  KeyFigures/Proofs/Service/Unobservable.lean
  ===========================================
  **The cache cannot be observed.**

  However calls, saves, drops and the clock follow upon each other, a call is
  answered as a fresh service would answer it that has an empty cache and the
  registry of the moment at which the call was taken up
  (`Service.cache_unobservable`).  The two answers may write the same number
  differently, and where the clock of the run shows no time there may be none.

  Formulas have to be told apart by their keys.  A key rounds the numbers of a
  formula to the working range, so that formulas with numbers outside of it are
  answered by each other's results (`Service.not_cache_unobservable`).
-/
import KeyFigures.Proofs.Formula.Identity
import KeyFigures.Proofs.Service.Effort
import KeyFigures.Proofs.Service.Endings

namespace KeyFigures

open Decimal (IsExact)

/-! ### Keys that mean one thing -/

/-- What is assumed of a compiled formula and of what it is asked for: data of
    the right types, numbers within the working range, and parts that do not
    fail for different reasons. -/
structure Compiled.Regular (fetched : Value → Value → Value → Attempt Ledger) (f : Compiled)
    (version : Value) (job : Job) : Prop where
  textual : f.tree.Textual
  exact : f.tree.AllConstants IsExact
  kind : f.kind.IsProper
  singles : ∀ x ∈ job.singles, x.1.IsText ∧ ∃ year, x.2 = .int year
  version_eq : version = .null ∨ version.IsText
  failsAlike : f.FailsAlike fetched version job
  partsFailAlike : ∀ g ∈ job.parts, f.FailsAlike fetched version (.figure g)

/-- Whatever is asked for is regular, and no two formulas that are used share a
    key unless they share the text behind it. -/
structure Surroundings.Regular (w : Surroundings) : Prop where
  regular : ∀ {c r f job}, w.taken c r → r.prepare c = .ok (f, job) →
    f.Regular w.fetched c.version job
  apart : ∀ {c r f job c' r' f' job'}, w.taken c r → r.prepare c = .ok (f, job) →
    w.taken c' r' → r'.prepare c' = .ok (f', job') → f.key = f'.key →
      keyText f.tree f.kind.word = keyText f'.tree f'.kind.word

namespace Surroundings

variable {w : Surroundings}

theorem Wanted.exists_asked {f : Compiled} {version : Value} {job : Job}
    (h : w.Wanted f version job) : ∃ c r top, w.taken c r ∧ r.prepare c = .ok (f, top) ∧
      c.version = version ∧ job.singles ⊆ top.singles := by
  induction h with
  | asked htaken hprepared => exact ⟨_, _, _, htaken, hprepared, rfl, List.Subset.refl _⟩
  | part _ hg ih =>
    obtain ⟨c, r, top, htaken, hprepared, hversion, hsub⟩ := ih
    exact ⟨c, r, top, htaken, hprepared, hversion,
      List.Subset.trans (Job.singles_subset_of_part hg) hsub⟩

theorem failsAlike_of_asked
    (hw : ∀ {c r f job}, w.taken c r → r.prepare c = .ok (f, job) →
      f.FailsAlike w.fetched c.version job ∧
        ∀ g ∈ job.parts, f.FailsAlike w.fetched c.version (.figure g))
    {f : Compiled} {version : Value} {job : Job} (h : w.Wanted f version job) :
    f.FailsAlike w.fetched version job := by
  cases h with
  | asked htaken hprepared => exact (hw htaken hprepared).1
  | part h hg =>
    cases h with
    | asked htaken hprepared => exact (hw htaken hprepared).2 _ hg
    | part _ hg' =>
      intro g₁ hg₁
      exact absurd (Job.isComposite_of_part hg₁) (by simp [Job.not_isComposite_of_part hg' hg])

/-- The key of data of the right types is the data itself. -/
theorem ofValues_eq {entity year version : Value} (hentity : entity.IsText)
    (hyear : ∃ n, year = .int n) (hversion : version = .null ∨ version.IsText) (key : String) :
    CacheKey.ofValues entity year version (.text key) = .ok ⟨entity, year, version, .text key⟩ := by
  obtain ⟨e, rfl⟩ := hentity
  obtain ⟨n, rfl⟩ := hyear
  rcases hversion with rfl | ⟨v, rfl⟩ <;> rfl

theorem Regular.outcome_alike (hw : w.Regular) {f f' : Compiled} {entity year version : Value}
    {c c' : Call} {r r' : Registry} {job job' : Job} (hc : w.taken c r)
    (hprepared : r.prepare c = .ok (f, job)) (hc' : w.taken c' r')
    (hprepared' : r'.prepare c' = .ok (f', job')) (hkey : f.key = f'.key) :
    Alike Result.Agrees (f.outcome w.fetched entity year version)
      (f'.outcome w.fetched entity year version) := by
  have hf := hw.regular hc hprepared
  have hf' := hw.regular hc' hprepared'
  obtain ⟨hkind, hlike⟩ := evaluatesLike_of_keyText hf.textual hf'.textual hf.exact hf'.exact
    hf.kind hf'.kind (hw.apart hc hprepared hc' hprepared' hkey)
  unfold Compiled.outcome
  refine Alike.bind (Alike.refl (fun ledger => Eq.refl ledger) _) ?_
  rintro ledger _ rfl
  rw [← hkind]
  exact hlike.result ledger.balances f.kind

/-- Data of the right types has keys, and they mean one thing if formulas with
    one key come to the same. -/
theorem coherent_of_typed
    (htyped : ∀ {c r f job}, w.taken c r → r.prepare c = .ok (f, job) →
      (∀ x ∈ job.singles, x.1.IsText ∧ ∃ year, x.2 = .int year) ∧
        (c.version = .null ∨ c.version.IsText))
    (halike : ∀ {c r f job c' r' f' job'}, w.taken c r → r.prepare c = .ok (f, job) →
      w.taken c' r' → r'.prepare c' = .ok (f', job') → f.key = f'.key →
        ∀ entity year version, Alike Result.Agrees (f.outcome w.fetched entity year version)
          (f'.outcome w.fetched entity year version))
    (hfails : ∀ {f version job}, w.Wanted f version job → f.FailsAlike w.fetched version job) :
    w.Coherent where
  exists_key := by
    intro f entity year version h
    obtain ⟨c, r, top, htaken, hprepared, rfl, hsub⟩ := h.exists_asked
    obtain ⟨hsingles, hversion⟩ := htyped htaken hprepared
    obtain ⟨hentity, hyear⟩ := hsingles (entity, year) (hsub List.mem_cons_self)
    exact ⟨_, ofValues_eq hentity hyear hversion f.key⟩
  keyMeans := by
    intro f entity year version key h hkey f' entity' year' version' h' hkey'
    obtain ⟨c, r, top, htaken, hprepared, rfl, hsub⟩ := h.exists_asked
    obtain ⟨c', r', top', htaken', hprepared', rfl, hsub'⟩ := h'.exists_asked
    obtain ⟨hsingles, hversion⟩ := htyped htaken hprepared
    obtain ⟨hsingles', hversion'⟩ := htyped htaken' hprepared'
    obtain ⟨hentity, hyear⟩ := hsingles (entity, year) (hsub List.mem_cons_self)
    obtain ⟨hentity', hyear'⟩ := hsingles' (entity', year') (hsub' List.mem_cons_self)
    rw [ofValues_eq hentity hyear hversion] at hkey
    rw [ofValues_eq hentity' hyear' hversion', ← hkey] at hkey'
    obtain ⟨hentities, hyears, hversions, hformulas⟩ := CacheKey.mk.inj (Except.ok.inj hkey')
    have hkeys : f'.key = f.key := Value.text.inj hformulas
    dsimp only at hentities hyears
    rw [hentities, hyears, hversions]
    exact .inl (halike htaken' hprepared' htaken hprepared hkeys entity year c.version)
  failsAlike := hfails

/-- Where all that is asked for is regular, a key means one thing. -/
theorem Regular.coherent (hw : w.Regular) : w.Coherent :=
  coherent_of_typed
    (fun htaken hprepared =>
      ⟨(hw.regular htaken hprepared).singles, (hw.regular htaken hprepared).version_eq⟩)
    (fun htaken hprepared htaken' hprepared' hkey _ _ _ =>
      hw.outcome_alike htaken hprepared htaken' hprepared' hkey)
    (failsAlike_of_asked fun htaken hprepared =>
      ⟨(hw.regular htaken hprepared).failsAlike, (hw.regular htaken hprepared).partsFailAlike⟩)

theorem Regular.mono {w' : Surroundings} (hw : w.Regular) (hfetched : w'.fetched = w.fetched)
    (htaken : ∀ c r, w'.taken c r → w.taken c r) : w'.Regular where
  regular := fun hc hprepared => hfetched ▸ hw.regular (htaken _ _ hc) hprepared
  apart := fun hc hprepared hc' hprepared' =>
    hw.apart (htaken _ _ hc) hprepared (htaken _ _ hc') hprepared'

end Surroundings

/-! ### A call that is made alone -/

namespace Service

variable {w : Surroundings} {h : History} {s : Service} {awaited : String → Prop} {limit : Nat}

theorem cost_pos (s : Service) (turn : Turn) : 1 ≤ s.cost turn := by
  cases turn with
  | call c => exact Nat.le_add_right_of_le (by decide)
  | begin n => exact Nat.le_add_right 1 _
  | _ => simp [cost]

theorem ready_eq_nil_of_effort (h : s.effort = 0) : s.ready = [] := by
  rw [List.eq_nil_iff_forall_not_mem]
  intro turn hturn
  have hsum := List.single_le_sum (l := s.ready.map s.cost) (by simp) _ (List.mem_map_of_mem hturn)
  have hpos := s.cost_pos turn
  unfold effort at h
  omega

theorem effort_cons {turn : Turn} {rest : List Turn} (hready : s.ready = turn :: rest) :
    s.effort = { s with ready := rest }.effort + { s with ready := rest }.cost turn := by
  have hcost : s.cost = { s with ready := rest }.cost := by
    funext x
    cases x <;> rfl
  unfold effort
  rw [hready, hcost]
  simp only [List.map_cons, List.sum_cons]
  omega

/-- A call that was the only turn has been taken up by it, and no turn makes
    another call. -/
theorem not_call_after_perform {turn : Turn} {rest : List Turn}
    (honly : ∀ c, .call c ∈ turn :: rest → turn :: rest = [.call c]) (c : Call) :
    .call c ∉ ({ s with ready := rest }.perform turn).ready := by
  intro hmem
  have hcalls : c ∈ ({ s with ready := rest }.perform turn).calls :=
    List.mem_filterMap.mpr ⟨.call c, hmem, rfl⟩
  rw [(Keeps.perform turn).calls] at hcalls
  obtain ⟨x, hx, hxc⟩ := List.mem_filterMap.mp hcalls
  have hx : x ∈ rest := hx
  cases x <;> cases hxc
  rw [(List.cons.inj (honly c (List.mem_cons_of_mem turn hx))).2] at hx
  cases hx

/-- With turns enough for its effort a service gets to where nothing is ready;
    a call, if there is one, is the only turn that is ready. -/
theorem takeAll_ends (hw : w.Coherent) (fuel : Nat) (hs : s.Sound w h) (hl : s.Live awaited none)
    (htower : s.tower.Orderly limit []) (hfree : s.tower.Unhindered)
    (hcall : ∀ c, .call c ∈ s.ready → s.ready = [.call c] ∧ w.taken c s.registry)
    (heffort : s.effort ≤ fuel) :
    ∃ h', (s.takeAll fuel).Sound w h' ∧ (s.takeAll fuel).Live awaited none ∧
      (s.takeAll fuel).ready = [] ∧ (s.takeAll fuel).computations = [] := by
  induction fuel generalizing s h with
  | zero =>
    have hready := ready_eq_nil_of_effort (Nat.le_zero.mp heffort)
    exact ⟨h, hs, hl, hready, computations_eq_nil_of_unhindered htower hfree hready⟩
  | succ fuel ih =>
    unfold takeAll
    cases hready : s.ready with
    | nil => exact ⟨h, hs, hl, hready, computations_eq_nil_of_unhindered htower hfree hready⟩
    | cons turn rest =>
      have hfirst : s.ready[0]? = some turn := by rw [hready]; rfl
      have htake : s.take 0 = { s with ready := rest }.perform turn := by
        unfold Service.take
        rw [hfirst, hready]
        rfl
      have hwhole : { { s with ready := rest } with ready := turn :: rest } = s := by rw [← hready]
      have hout := hs.takeOut hfirst
      rw [hready] at hout
      obtain ⟨hrest, hturn, hfits⟩ := hout
      have hlive : Live awaited none { { s with ready := rest } with ready := turn :: rest } :=
        hwhole.symm ▸ hl
      have htaken : ∀ c, turn = .call c → w.taken c s.registry := by
        rintro c rfl
        exact (hcall c (hready ▸ List.mem_cons_self)).2
      obtain ⟨h₁, hs₁⟩ := hrest.perform hw hturn hfits htaken
      have hl₁ := hlive.perform hrest hfits htaken
      have hless := effort_perform hlive.takeOut hrest hfree.queue
      have hfree₁ : ({ s with ready := rest }.perform turn).tower.Unhindered :=
        Tower.Unhindered.move (t := { s with ready := rest }.tower) { hfree with }
          (tower_perform turn)
      have htower₁ : ({ s with ready := rest }.perform turn).tower.Orderly limit [] :=
        orderly_perform (hwhole.symm ▸ htower)
      have hsum := effort_cons hready
      have hcalls := not_call_after_perform (s := s) fun c hmem => by
        rw [← hready] at hmem ⊢
        exact (hcall c hmem).1
      rw [List.isEmpty_cons]
      rw [htake]
      exact ih hs₁ hl₁ htower₁ hfree₁ (fun c hmem => absurd hmem (hcalls c)) (by omega)

theorem effort_le_turnBound {c : Call} (hready : s.ready = [.call c]) (htasks : s.tasks = [])
    (hflights : s.cache.flights = []) : s.effort ≤ s.turnBound := by
  have hwork : 3 + ((c.job.toOption).map Job.work).getD 0 ≤ 8 * (c.size + 1) := by
    unfold Call.size
    cases c.job with
    | error f => simp [Except.toOption]
    | ok job =>
      have hjob := job.work_le
      simp only [Except.toOption, Option.map_some, Option.getD_some]
      omega
  unfold effort turnBound
  rw [hready, htasks, hflights]
  simp only [List.map_cons, List.map_nil, List.sum_cons, List.sum_nil, List.length_nil, cost,
    List.foldr_cons, List.foldr_nil, Turn.weight]
  omega

/-- A fresh service answers every call, and as the call is meant. -/
theorem exists_answer {r : Registry} {source : LedgerSource} {settings : Settings} (now : Moment)
    (requestId : Nat → String) {c : Call} (hlimit : 1 ≤ settings.concurrencyLimit)
    (hw : Surroundings.Coherent ⟨source.answer, fun c' r' => c' = c ∧ r' = r, fun _ => False⟩) :
    ∃ x, (start r source settings none (.ok now) requestId).answer c = some x ∧
      Alike Response.Agrees (r.response source.answer c) x := by
  obtain ⟨w, hwe⟩ : ∃ w : Surroundings, w =
      ⟨source.answer, fun c' r' => c' = c ∧ r' = r, fun _ => False⟩ := ⟨_, rfl⟩
  rw [← hwe] at hw
  obtain ⟨s, hse⟩ : ∃ s, s = (start r source settings none (.ok now) requestId).submit [c] :=
    ⟨_, rfl⟩
  have hstart : (start r source settings none (.ok now) requestId).Sound w {} :=
    start_sound (by simp) (by rw [hwe]; exact fun _ _ _ => rfl) (by simp)
  have hs : s.Sound w {} := hse ▸ hstart.enqueue_all (by simp [Turn.Sound, Turn.holds])
  have hready : s.ready = [.call c] := by rw [hse]; rfl
  have hl : s.Live (Event.awaits (.call c) fun _ => False) none := by
    rw [hse]
    exact (live_start (by simp)).call c
  have htower : s.tower.Orderly settings.concurrencyLimit [] := by
    rw [hse]
    exact orderly_step (orderly_start r source settings none (.ok now) requestId) (.call c)
  have hfree : s.tower.Unhindered := by
    rw [hse]
    exact ⟨rfl, rfl, hlimit, rfl, rfl⟩
  obtain ⟨h', hs', hl', hready', hdone⟩ := takeAll_ends hw s.turnBound hs hl htower hfree (by
      intro c' hc'
      rw [hready] at hc' ⊢
      obtain ⟨⟩ := List.mem_singleton.mp hc'
      exact ⟨rfl, by rw [hwe, hse]; exact ⟨rfl, rfl⟩⟩)
    (effort_le_turnBound hready (by rw [hse]; rfl) (by rw [hse]; rfl))
  obtain ⟨e, he, hcaller⟩ := hl'.exists_ending hs' hready' hdone (.inr rfl)
  have hanswer : (start r source settings none (.ok now) requestId).answer c =
      ((s.takeAll s.turnBound).endings.find? (·.caller == c.caller)).map (·.outcome) := by
    rw [hse]
    rfl
  rw [hanswer]
  cases hfind : (s.takeAll s.turnBound).endings.find? (·.caller == c.caller) with
  | none => exact absurd (List.find?_eq_none.mp hfind e he) (by simpa using hcaller)
  | some e' =>
    obtain ⟨c', r', htaken, -, hmeets⟩ := hs'.endings e' (List.mem_of_find?_eq_some hfind)
    rw [hwe] at htaken hmeets
    obtain ⟨rfl, rfl⟩ := htaken
    refine ⟨e'.outcome, rfl, hmeets.resolve_right ?_⟩
    rintro ⟨fault, hfalse, -⟩
    exact hfalse

/-! ### Two callers, one after the other -/

/-- The service with a call taken up. -/
def begun (s : Service) (c : Call) (f : Compiled) (job : Job) : Service :=
  (s.enrol c f job).begin (s.taskOf c f job)

theorem take_call {c : Call} {f : Compiled} {job : Job} {rest : List Turn}
    (hready : s.ready = .call c :: rest) (hprepared : s.registry.prepare c = .ok (f, job)) :
    s.take 0 = { s with ready := rest }.begun c f job := by
  have hfirst : s.ready[0]? = some (.call c) := by
    rw [hready]
    rfl
  unfold Service.take
  rw [hfirst, hready]
  show Service.takeUp { s with ready := rest } c = _
  rw [takeUp_eq, hprepared]
  rfl

/-- A service with nothing to do takes up a call at once. -/
theorem run_call_take {c : Call} {f : Compiled} {job : Job} (hidle : s.ready = [])
    (hprepared : s.registry.prepare c = .ok (f, job)) :
    s.run [.call c, .take 0] = s.begun c f job := by
  have hready : (s.submit [c]).ready = [.call c] := by
    show s.ready ++ _ = _
    rw [hidle]
    rfl
  have hsame : { s.submit [c] with ready := [] } = s := by
    rw [← hidle]
    rfl
  have htake : (s.submit [c]).take 0 = { s.submit [c] with ready := [] }.begun c f job :=
    take_call hready hprepared
  rw [hsame] at htake
  exact htake

theorem takesUp_of_idle {before : List Event} (hidle : (s.run before).ready = []) (c : Call) :
    s.TakesUp (before ++ [.call c, .take 0]) c (s.run before).registry := by
  have hrun : s.run (before ++ [.call c]) = (s.run before).submit [c] := run_append s before _
  refine ⟨before ++ [.call c], 0, [], by simp, ?_, by rw [hrun]; rfl⟩
  rw [hrun]
  show ((s.run before).ready ++ [Turn.call c])[0]? = _
  rw [hidle]
  rfl

/-- A service with one ledger and an empty library. -/
def small : Service :=
  start ⟨[], none, .whole 1⟩ (.memory [⟨.text "A", .int 2024, .null, []⟩])
    ⟨.int 1, 1, none, none, "kr", true⟩ none (.ok ⟨0, none⟩) Nat.repr

def asked : Job := .figure (.single (.text "A") (.int 2024))

/-- A caller asks for the figure of a formula in 2024. -/
def asking (caller : String) (source : Value) : Call :=
  .single caller (.text "A") (.int 2024) (.written source .amount) .null

/-- One caller asks and gets its answer. -/
def firstCall (source : Value) : List Event :=
  [.call (asking "a" source), .take 0, .take 0, .take 0, .take 0]

/-- Another caller asks when the first has its answer. -/
def askedInTurn (first second : Value) : List Event :=
  firstCall first ++ [.call (asking "b" second), .take 0]

/-- The amount `d`, where `n` is its normal form. -/
def numberFormula (d n : Decimal) : Compiled :=
  ⟨.constant d, .amount, String.ofList ((Digest.ofText (numberText n)).toList.take keyLength)⟩

theorem compile_number {source : Value} {d n : Decimal}
    (hsource : parseSource source = .ok (.constant d)) (hn : d.normalize = .ok n) :
    small.registry.compile (.written source .amount) = .ok (numberFormula d n) := by
  have hresolved : small.registry.resolveSource source = .ok (.constant d) := by
    unfold Registry.resolveSource Registry.expand
    rw [hsource]
    show ((Registry.expandShared _ _ _ _ _).map _ : Attempt Term) = _
    rw [Registry.expandShared]
    rfl
  unfold Registry.compile
  dsimp only
  rw [hresolved]
  show (formulaKey (.constant d) ResultKind.amount.word).map _ = _
  rw [formulaKey_eq, keyText_constant hn]
  rfl

theorem prepare_asking {source : Value} {d n : Decimal} (caller : String)
    (hsource : parseSource source = .ok (.constant d)) (hn : d.normalize = .ok n) :
    small.registry.prepare (asking caller source) = .ok (numberFormula d n, asked) := by
  unfold Registry.prepare asking Call.single
  dsimp only
  rw [compile_number hsource hn]
  rfl

theorem run_firstCall {source : Value} {f : Compiled}
    (hf : small.registry.prepare (asking "a" source) = .ok (f, asked)) :
    small.run (firstCall source) =
      (small.begun (asking "a" source) f asked).run [.take 0, .take 0, .take 0] := by
  have hfirst : (small.submit [asking "a" source]).take 0 = small.begun (asking "a" source) f asked :=
    take_call rfl hf
  rw [← hfirst]
  rfl

theorem registry_firstCall (source : Value) :
    (small.run (firstCall source)).registry = small.registry :=
  run_keeps registry (by simp [firstCall, registry_step])

theorem answer_small {caller : String} {source : Value} {f : Compiled}
    (hf : small.registry.prepare (asking caller source) = .ok (f, asked)) :
    small.answer (asking caller source) =
      ((takeAll 15 (small.begun (asking caller source) f asked)).endings.find?
        (·.caller == caller)).map (·.outcome) := by
  have hfirst : (small.submit [asking caller source]).take 0 =
      small.begun (asking caller source) f asked := take_call rfl hf
  rw [← hfirst]
  rfl

section InTurn

variable {first second : Value} {f g : Compiled} {c : Call} {r : Registry} {job : Job}

theorem run_askedInTurn (hg : small.registry.prepare (asking "b" second) = .ok (g, asked))
    (hidle : (small.run (firstCall first)).ready = []) :
    small.run (askedInTurn first second) =
      (small.run (firstCall first)).begun (asking "b" second) g asked := by
  rw [askedInTurn, run_append]
  refine run_call_take hidle ?_
  rw [registry_firstCall]
  exact hg

theorem takesUp_second (hidle : (small.run (firstCall first)).ready = []) :
    small.TakesUp (askedInTurn first second) (asking "b" second) small.registry := by
  have htaken := takesUp_of_idle hidle (asking "b" second)
  rwa [registry_firstCall] at htaken

theorem of_takesUp_askedInTurn (hf : small.registry.prepare (asking "a" first) = .ok (f, asked))
    (hg : small.registry.prepare (asking "b" second) = .ok (g, asked)) {f' : Compiled}
    (h : small.TakesUp (askedInTurn first second) c r) (hprepared : r.prepare c = .ok (f', job)) :
    (f' = f ∨ f' = g) ∧ job = asked ∧ c.version = .null := by
  rw [h.registry_eq (by simp [askedInTurn, firstCall])] at hprepared
  have hmem : c ∈ [asking "a" first, asking "b" second] := h.mem
  rcases List.mem_pair.mp hmem with rfl | rfl
  · rw [hf] at hprepared
    cases hprepared
    exact ⟨.inl rfl, rfl, rfl⟩
  · rw [hg] at hprepared
    cases hprepared
    exact ⟨.inr rfl, rfl, rfl⟩

theorem source_askedInTurn {before after : List Event}
    (h : askedInTurn first second = before ++ after) : (small.run before).source = small.source := by
  refine run_keeps source fun e he _ => source_step fun l hl => ?_
  have hmem : Event.addLedger l ∈ askedInTurn first second := h ▸ List.mem_append_left after (hl ▸ he)
  simp [askedInTurn, firstCall] at hmem

end InTurn

/-! ### Runs -/

/-- What a run of a service is compared with. -/
def surroundings (s : Service) (events : List Event) : Surroundings where
  fetched := s.source.answer
  taken := s.TakesUp events
  shown fault := s.cache.now = .error fault ∨ .clock (.error fault) ∈ events

/-- **The cache is unobservable.**  In a run from an empty cache in which the
    source keeps answering the same and every caller makes one call, a call that
    is taken up ends, if it ends, with the answer of a fresh service that has the
    registry of that moment: of the same shape, with the same errors, kinds and
    warnings and numerically the same values.  Only a clock that showed no time
    can show through. -/
theorem cache_unobservable {registry : Registry} {source : LedgerSource} {settings : Settings}
    {given : Option (SharedCache Nat)} {now : Except TimeFault Moment} {requestId : Nat → String}
    {events : List Event} {s : Service}
    (hstart : s = start registry source settings given now requestId)
    (hgiven : ∀ c ∈ given, c.cache.size = 0)
    (hsource : ∀ before after, events = before ++ after →
      (s.run before).source.answer = source.answer)
    (hregular : (s.surroundings events).Regular)
    (hcallers : ((made events).map (·.caller)).Nodup)
    {c : Call} {r : Registry} (hc : s.TakesUp events c r) {e : Ending}
    (he : e ∈ (s.run events).endings) (hcaller : e.caller = c.caller)
    {settings' : Settings} (hlimit : 1 ≤ settings'.concurrencyLimit) (now' : Moment)
    (requestId' : Nat → String) :
    ∃ x, (start r source settings' none (.ok now') requestId').answer c = some x ∧
      (s.surroundings events).Meets Response.Agrees x e.outcome := by
  have hfetched : (s.surroundings events).fetched = source.answer := by
    rw [hstart]
    rfl
  have hsound : s.Sound (s.surroundings events) {} := by
    have hnow : s.cache.now = now := by
      rw [hstart]
      unfold start
      rw [cacheOf_eq hgiven]
      rfl
    have hstarted : (start registry source settings given now requestId).Sound
        (s.surroundings events) {} :=
      start_sound hgiven (fun entity year version => by rw [hfetched])
        fun fault hfault => .inl (hnow.trans hfault)
    rwa [← hstart] at hstarted
  obtain ⟨h', hrun⟩ := hsound.run hregular.coherent (fun _ _ htaken => htaken)
    (fun before after heq entity year version => by rw [hsource before after heq, hfetched])
    fun fault hfault => .inr hfault
  -- the ending is that of the call, since the caller made no other
  obtain ⟨c', r', hc', hcaller', hmeets⟩ := hrun.endings e he
  have hnone : s.calls = [] := by
    rw [hstart]
    rfl
  obtain ⟨rfl, rfl⟩ := hc.unique hc' (hcaller.symm.trans hcaller'.symm) (by rwa [hnone])
  have halone : (⟨source.answer, fun c' r' => c' = c ∧ r' = r, fun _ => False⟩ :
      Surroundings).Regular :=
    hregular.mono hfetched.symm (by rintro _ _ ⟨rfl, rfl⟩; exact hc)
  obtain ⟨x, hanswer, hx⟩ := exists_answer now' requestId' hlimit halone.coherent
  refine ⟨x, hanswer, ?_⟩
  rw [hfetched] at hmeets
  rcases hmeets with hmeets | hfault
  · exact .inl ((hx.symm Response.Agrees.symm).trans hmeets fun _ _ _ => Response.Agrees.trans)
  · exact .inr hfault

/-- A number that is asked for once more in another writing is answered from the
    cache. -/
theorem cache_unobservable_hit :
    let events := askedInTurn (.text "1.5") (.text "1.500")
    (small.run events).fetches = 1 ∧
      ∃ e ∈ (small.run events).endings, e.caller = "b" ∧
        ∃ x, small.answer (asking "b" (.text "1.500")) = some x ∧
          (small.surroundings events).Meets Response.Agrees x e.outcome := by
  intro events
  have hf : small.registry.prepare (asking "a" (.text "1.5")) =
      .ok (numberFormula (.finite false 15 (-1)) (.finite false 15 (-1)), asked) :=
    prepare_asking "a" (by cbv) (by decide +kernel)
  have hg : small.registry.prepare (asking "b" (.text "1.500")) =
      .ok (numberFormula (.finite false 1500 (-3)) (.finite false 15 (-1)), asked) :=
    prepare_asking "b" (by cbv) (by decide +kernel)
  have hidle : (small.run (firstCall (.text "1.5"))).ready = [] := by
    rw [run_firstCall hf]
    exact List.length_eq_zero_iff.mp (by decide +kernel)
  have hrun : small.run events = _ := run_askedInTurn hg hidle
  rw [run_firstCall hf] at hrun
  have hfetches : (small.run events).fetches = 1 := by
    rw [hrun]
    decide +kernel
  have hcallers : (small.run events).endings.map (·.caller) = ["a", "b"] := by
    rw [hrun]
    decide +kernel
  have hone : (Decimal.finite false 15 (-1)).IsExact :=
    Decimal.isExact_of_digits (by decide +kernel) (by decide) (by decide +kernel)
  have hthree : (Decimal.finite false 1500 (-3)).IsExact :=
    Decimal.isExact_of_digits (by decide +kernel) (by decide) (by decide +kernel)
  have hnumber : ∀ {c r f job}, small.TakesUp events c r → r.prepare c = .ok (f, job) →
      (∃ d, f.tree = .constant d ∧ d.IsExact) ∧ f.kind = .amount ∧
        keyText f.tree f.kind.word = .ok (numberText (.finite false 15 (-1))) ∧
          job = asked ∧ c.version = .null := by
    intro c r f job h hprepared
    obtain ⟨rfl | rfl, hjob, hversion⟩ := of_takesUp_askedInTurn hf hg h hprepared
    · exact ⟨⟨_, rfl, hone⟩, rfl, keyText_constant (by decide +kernel), hjob, hversion⟩
    · exact ⟨⟨_, rfl, hthree⟩, rfl, keyText_constant (by decide +kernel), hjob, hversion⟩
  have hregular : (small.surroundings events).Regular := {
    regular := by
      intro c r f job h hprepared
      obtain ⟨⟨d, htree, hd⟩, hkind, -, rfl, hversion⟩ := hnumber h hprepared
      exact {
        textual := htree ▸ trivial
        exact := htree ▸ hd
        kind := hkind ▸ trivial
        singles := by simp [asked, Job.singles, Value.IsText]
        version_eq := .inl hversion
        failsAlike := fun _ hg => absurd hg List.not_mem_nil
        partsFailAlike := fun _ hg => absurd hg List.not_mem_nil }
    apart := by
      intro c r f job c' r' f' job' h hprepared h' hprepared' _
      rw [(hnumber h hprepared).2.2.1, (hnumber h' hprepared').2.2.1] }
  obtain ⟨e, he, hcaller⟩ : ∃ e ∈ (small.run events).endings, e.caller = "b" :=
    List.mem_map.mp (hcallers ▸ List.mem_cons_of_mem "a" List.mem_cons_self)
  exact ⟨hfetches, e, he, hcaller, cache_unobservable rfl (by simp)
    (fun _ _ heq => congrArg LedgerSource.answer (source_askedInTurn heq)) hregular (by decide)
    (takesUp_second hidle) he hcaller (by decide) ⟨0, none⟩ Nat.repr⟩

/-- Two numbers of one digit that are too small for the working range have one
    text for their keys, so that the second caller is given the first number. -/
theorem not_cache_unobservable :
    let small₁ := Value.tuple [.object [("type", .text "constant"), ("constant", .text "1E-1000030")]]
    let small₂ := Value.tuple [.object [("type", .text "constant"), ("constant", .text "2E-1000030")]]
    let events := askedInTurn small₁ small₂
    (∀ c r f job, small.TakesUp events c r → r.prepare c = .ok (f, job) →
        (∃ n digit e, digit < 10 ∧ f.tree = .constant (.finite n digit e)) ∧
          keyText f.tree f.kind.word = .ok (numberText (.finite false 0 0))) ∧
      small.TakesUp events (asking "b" small₂) small.registry ∧
      ∃ e ∈ (small.run events).endings, e.caller = "b" ∧
        ∃ x, small.answer (asking "b" small₂) = some x ∧
          ¬ (small.surroundings events).Meets Response.Agrees x e.outcome := by
  intro small₁ small₂ events
  have hf : small.registry.prepare (asking "a" small₁) =
      .ok (numberFormula (.finite false 1 (-1000030)) (.finite false 0 0), asked) :=
    prepare_asking "a" (by decide +kernel) (by decide +kernel)
  have hg (caller : String) : small.registry.prepare (asking caller small₂) =
      .ok (numberFormula (.finite false 2 (-1000030)) (.finite false 0 0), asked) :=
    prepare_asking caller (by decide +kernel) (by decide +kernel)
  have hidle : (small.run (firstCall small₁)).ready = [] := by
    rw [run_firstCall hf]
    exact List.length_eq_zero_iff.mp (by decide +kernel)
  have hrun : small.run events = _ := run_askedInTurn (hg "b") hidle
  rw [run_firstCall hf] at hrun
  have houtcomes : (small.run events).endings.map (fun e => (e.caller, e.outcome)) =
      [("a", .ok (.figure ⟨.value (.finite false 1 (-1000030)), .amount, []⟩)),
        ("b", .ok (.figure ⟨.value (.finite false 1 (-1000030)), .amount, []⟩))] := by
    rw [hrun]
    decide +kernel
  have hfresh : small.answer (asking "b" small₂) =
      some (.ok (.figure ⟨.value (.finite false 2 (-1000030)), .amount, []⟩)) := by
    rw [answer_small (hg "b")]
    decide +kernel
  have hsecond : ("b", _) ∈ (small.run events).endings.map fun e => (e.caller, e.outcome) :=
    houtcomes ▸ List.mem_cons_of_mem _ List.mem_cons_self
  obtain ⟨e, he, heq⟩ := List.mem_map.mp hsecond
  obtain ⟨hcaller, houtcome⟩ := Prod.mk.inj heq
  refine ⟨?_, takesUp_second hidle, e, he, hcaller, _, hfresh, ?_⟩
  · intro c r f job h hprepared
    obtain ⟨rfl | rfl, -, -⟩ := of_takesUp_askedInTurn hf (hg "b") h hprepared
    · exact ⟨⟨_, _, _, by decide, rfl⟩, keyText_constant (by decide +kernel)⟩
    · exact ⟨⟨_, _, _, by decide, rfl⟩, keyText_constant (by decide +kernel)⟩
  · rw [houtcome]
    rintro (hagrees | ⟨fault, -, hfault⟩)
    · cases hagrees with
      | figure h =>
        have hvalues := h.value_agrees _ _ rfl rfl
        cases hvalues with
        | finite h =>
          have hpower : (10 : ℚ) ^ (-1000030 : ℤ) ≠ 0 := (Decimal.ten_zpow_pos _).ne'
          have hdigits := mul_right_cancel₀ hpower h
          norm_num [Decimal.signed] at hdigits
    · cases hfault

end Service

end KeyFigures
