/-
  KeyFigures/Proofs/Service/Provenance.lean
  =========================================
  **Where answers come from.**

  `Service.Sound` compares outcomes with what they mean, and needs a source that
  always answers the same and keys that mean one thing.  Here nothing is assumed
  of either.  An outcome is followed back to what the tasks were told about
  their keys: `Explained` says how the outcome of a job comes about from that,
  and `Service.Accounted` that nothing under way, and no ending, has come about
  in another way.

  What the tasks were told is kept in `Books`, together with the calls that were
  taken up.  Several services may share the books, as they share the numbers of
  their tasks.  A task is younger than the task whose part it is, so an answer
  depends on nothing that was told before its call was taken up (`ToldSince`).
-/
import KeyFigures.Proofs.Service.Moves

namespace KeyFigures

/-! ### Outcomes and what they come from -/

/-- How the outcome of a job comes about from what is told about keys. -/
inductive Explained (told : CacheKey → Attempt Result → Prop) (f : Compiled) (version : Value) :
    Job → Attempt Response → Prop where
  /-- A single figure is what is told about its key. -/
  | heard {entity year : Value} {key : CacheKey} {x : Attempt Result}
      (hkey : CacheKey.ofValues entity year version (.text f.key) = .ok key) (hx : told key x) :
      Explained told f version (.figure (.single entity year))
        ((Aggregate.contribution f.kind x).map .figure)
  /-- What has no key cannot be looked up. -/
  | keyless {entity year : Value} {e : Failure}
      (hkey : CacheKey.ofValues entity year version (.text f.key) = .error e) :
      Explained told f version (.figure (.single entity year)) (.error e)
  | refused {job : Job} {e : Failure} (hcheck : job.check = .error e) :
      Explained told f version job (.error e)
  /-- A job fails with one of its parts. -/
  | failed {job : Job} {g : Figure} {e : Failure} (hcheck : job.check = .ok ())
      (hg : g ∈ job.parts) (h : Explained told f version (.figure g) (.error e)) :
      Explained told f version job (.error e)
  /-- The results of all parts are put together. -/
  | combined {job : Job} {results : List Result} (hcomposite : job.isComposite)
      (hcheck : job.check = .ok ()) (hlength : job.parts.length = results.length)
      (h : ∀ (place : Nat) (g : Figure) (r : Result), job.parts[place]? = some g →
        results[place]? = some r → Explained told f version (.figure g) (.ok (.figure r))) :
      Explained told f version job (job.combine f.kind results)

namespace Explained

variable {told told' : CacheKey → Attempt Result → Prop} {f : Compiled} {version : Value}
  {job : Job} {x : Attempt Response}

theorem mono (h : Explained told f version job x) (hmono : ∀ key x, told key x → told' key x) :
    Explained told' f version job x := by
  induction h with
  | heard hkey hx => exact .heard hkey (hmono _ _ hx)
  | keyless hkey => exact .keyless hkey
  | refused hcheck => exact .refused hcheck
  | failed hcheck hg _ ih => exact .failed hcheck hg ih
  | combined hcomposite hcheck hlength _ ih => exact .combined hcomposite hcheck hlength ih

theorem of_forall₂ {results : List Result} (hcomposite : job.isComposite)
    (hcheck : job.check = .ok ())
    (h : List.Forall₂ (fun g r => Explained told f version (.figure g) (.ok (.figure r)))
      job.parts results) : Explained told f version job (job.combine f.kind results) := by
  refine .combined hcomposite hcheck h.length_eq fun place g r hg hr => ?_
  obtain ⟨hlt, rfl⟩ := List.getElem?_eq_some_iff.mp hg
  obtain ⟨hlt', rfl⟩ := List.getElem?_eq_some_iff.mp hr
  exact h.get hlt hlt'

/-- The figure of one entity is what is told about its key, if it has one. -/
theorem single {entity year : Value}
    (h : Explained told f version (.figure (.single entity year)) x) :
    (∃ key y, CacheKey.ofValues entity year version (.text f.key) = .ok key ∧ told key y ∧
      x = (Aggregate.contribution f.kind y).map .figure) ∨
    ∃ e, CacheKey.ofValues entity year version (.text f.key) = .error e ∧ x = .error e := by
  cases h with
  | heard hkey hx => exact .inl ⟨_, _, hkey, hx, rfl⟩
  | keyless hkey => exact .inr ⟨_, hkey, rfl⟩
  | refused hcheck => cases hcheck
  | failed hcheck hg _ => cases hg
  | combined hcomposite _ _ _ => cases hcomposite

end Explained

/-! ### Books -/

/-- What is written down about services that share a cache. -/
structure Books where
  /-- What the task of a number is told about a key. -/
  told : Nat → CacheKey → Attempt Result → Prop
  /-- The calls that were taken up, each with the registry of that moment. -/
  taken : Call → Registry → Prop
  /-- The number of the first task.  Whoever asks the cache with a lower one is
      no task. -/
  first : Nat := 0

namespace Books

variable (b : Books) (h : History)

/-- What tasks from number `n` on are told. -/
def ToldSince (n : Nat) (key : CacheKey) (x : Attempt Result) : Prop :=
  ∃ m, n ≤ m ∧ b.told m key x

/-- Who asks the cache for a key is a task that looks it up, or no task. -/
def Asks (n : Nat) (key : CacheKey) : Prop :=
  n < h.errands.length ∧ (b.first ≤ n → ∃ a entity year, h.errands[n]? = some a ∧
    a.LooksUp entity year key)

/-- A task is told the outcome about the key that it looks up. -/
def Heard (n : Nat) (x : Attempt Result) : Prop :=
  ∃ a entity year key, h.errands[n]? = some a ∧ a.LooksUp entity year key ∧ b.told n key x

variable {b h}

theorem Asks.heard {n : Nat} {key : CacheKey} {x : Attempt Result} (ha : b.Asks h n key)
    (hfirst : b.first ≤ n) (hx : b.told n key x) : b.Heard h n x := by
  obtain ⟨a, entity, year, herrand, hlooks⟩ := ha.2 hfirst
  exact ⟨a, entity, year, key, herrand, hlooks, hx⟩

end Books

theorem Explained.since {b : Books} {f : Compiled} {version : Value} {job : Job}
    {x : Attempt Response} {m n : Nat} (h : Explained (b.ToldSince m) f version job x)
    (hle : n ≤ m) : Explained (b.ToldSince n) f version job x :=
  h.mono fun _ _ ⟨k, hk, htold⟩ => ⟨k, hle.trans hk, htold⟩

/-- A call was taken up; it was refused, or its answer has come about from what
    was told about keys. -/
def Ending.ComesFrom (told : CacheKey → Attempt Result → Prop) (taken : Call → Registry → Prop)
    (e : Ending) : Prop :=
  ∃ c r, taken c r ∧ c.caller = e.caller ∧
    ((∃ f, r.prepare c = .error f ∧ e.outcome = .error f) ∨
      ∃ f job, r.prepare c = .ok (f, job) ∧ Explained told f c.version job e.outcome)

/-! ### What is accounted for -/

section Accounted

variable (b : Books) (h : History)

/-- A caller has made the call, and an older task has the part. -/
def Owner.Accounted (n : Nat) (a : Errand) : Owner → Prop
  | .caller name _ => ∃ c r, b.taken c r ∧ c.caller = name ∧ c.version = a.version ∧
      r.prepare c = .ok (a.formula, a.job)
  | .task m place => m < n ∧ ∃ e g, h.HasPart m place e g ∧
      a.formula = e.formula ∧ a.version = e.version ∧ a.job = .figure g

structure History.Accounted : Prop where
  first : b.first ≤ h.errands.length
  owners : ∀ (n : Nat) (a : Errand), b.first ≤ n → h.errands[n]? = some a →
    a.owner.Accounted b h n a

structure Task.Accounted (t : Task) : Prop where
  first : b.first ≤ t.number
  errand_eq : h.errands[t.number]? = some t.errand
  results : ∀ r ∈ t.results, ∃ g, t.job.parts[r.1]? = some g ∧
    Explained (b.ToldSince t.number) t.formula t.version (.figure g) (.ok (.figure r.2))

/-- What is handed on by a turn was told to the task or has been found by a part
    of it. -/
def Turn.Accounted : Turn → Prop
  | .begin n => ∃ a, h.errands[n]? = some a
  | .deliver n x => b.first ≤ n → b.Heard h n x
  | .resume n x => b.Heard h n x
  | .report n place x => ∃ a g, h.HasPart n place a g ∧
      Explained (b.ToldSince n) a.formula a.version (.figure g) (x.map .figure)
  | .wake n (some f) => ∃ a g place, h.HasPart n place a g ∧
      Explained (b.ToldSince n) a.formula a.version (.figure g) (.error f)
  | .wake n none => ∃ a, h.errands[n]? = some a ∧ a.job.isComposite ∧ a.job.check = .ok ()
  | .call _ | .takeOff _ | .granted _ | .fetched _ => True

/-- A call has ended with its task, or there was nothing to do for it. -/
def Ending.Accounted (e : Ending) : Prop :=
  ∃ c r, b.taken c r ∧ c.caller = e.caller ∧
    ((∃ f, r.prepare c = .error f ∧ e.outcome = .error f) ∨
      ∃ n a saved, b.first ≤ n ∧ h.errands[n]? = some a ∧ a.owner = .caller e.caller saved ∧
        c.version = a.version ∧ r.prepare c = .ok (a.formula, a.job) ∧
        Explained (b.ToldSince n) a.formula a.version a.job e.outcome)

/-- Everything under way, and every ending, has come about from what tasks were
    told, and no part of a task is accounted for twice. -/
structure Service.Accounted (s : Service) : Prop where
  quiet : s.journal.IsQuiet
  history : h.Accounted b
  next : s.nextTask = h.errands.length
  tasks : ∀ t ∈ s.tasks, t.Accounted b h
  numbers : (s.tasks.map (·.number)).Nodup
  turns : ∀ turn ∈ s.ready, turn.Accounted b h
  once : ∀ n place, s.held n place ≤ 1
  complete : ∀ n, .wake n none ∈ s.ready → ∀ t ∈ s.tasks, t.number = n →
    t.job.parts.length ≤ t.results.length
  endings : ∀ e ∈ s.endings, e.Accounted b h

end Accounted

theorem Ending.Accounted.comesFrom {b : Books} {h : History} {e : Ending}
    (he : e.Accounted b h) : e.ComesFrom (b.ToldSince b.first) b.taken := by
  obtain ⟨c, r, htaken, hcaller, hfail | ⟨n, a, saved, hfirst, -, -, hversion, hprepared, hx⟩⟩ := he
  · exact ⟨c, r, htaken, hcaller, .inl hfail⟩
  · rw [← hversion] at hx
    exact ⟨c, r, htaken, hcaller, .inr ⟨a.formula, a.job, hprepared, hx.since hfirst⟩⟩

theorem Ending.ComesFrom.mono {told told' : CacheKey → Attempt Result → Prop}
    {taken taken' : Call → Registry → Prop} {e : Ending} (he : e.ComesFrom told taken)
    (htold : ∀ key x, told key x → told' key x) (htaken : ∀ c r, taken c r → taken' c r) :
    e.ComesFrom told' taken' := by
  obtain ⟨c, r, hc, hcaller, hfail | ⟨f, job, hprepared, hx⟩⟩ := he
  · exact ⟨c, r, htaken c r hc, hcaller, .inl hfail⟩
  · exact ⟨c, r, htaken c r hc, hcaller, .inr ⟨f, job, hprepared, hx.mono htold⟩⟩

/-! ### A longer history -/

section Grow

variable {b : Books} {h h' : History}

theorem Books.Asks.grow {n : Nat} {key : CacheKey} (ha : b.Asks h n key) (hg : h.Grows h') :
    b.Asks h' n key := by
  refine ⟨Nat.lt_of_lt_of_le ha.1 hg.errands.length_le, fun hfirst => ?_⟩
  obtain ⟨a, entity, year, herrand, hlooks⟩ := ha.2 hfirst
  exact ⟨a, entity, year, hg.errand herrand, hlooks⟩

theorem Books.Heard.grow {n : Nat} {x : Attempt Result} (hx : b.Heard h n x) (hg : h.Grows h') :
    b.Heard h' n x := by
  obtain ⟨a, entity, year, key, ha, hrest⟩ := hx
  exact ⟨a, entity, year, key, hg.errand ha, hrest⟩

theorem Owner.Accounted.grow {n : Nat} {a : Errand} {o : Owner} (ho : o.Accounted b h n a)
    (hg : h.Grows h') : o.Accounted b h' n a := by
  cases o with
  | caller name saved => exact ho
  | task m place =>
    obtain ⟨hlt, e, g, hp, hrest⟩ := ho
    exact ⟨hlt, e, g, hp.grow hg, hrest⟩

theorem Task.Accounted.grow {t : Task} (ht : t.Accounted b h) (hg : h.Grows h') :
    t.Accounted b h' :=
  ⟨ht.first, hg.errand ht.errand_eq, ht.results⟩

theorem Turn.Accounted.grow {turn : Turn} (ht : turn.Accounted b h) (hg : h.Grows h') :
    turn.Accounted b h' := by
  cases turn with
  | call | takeOff | granted | fetched => trivial
  | begin n =>
    obtain ⟨a, ha⟩ := ht
    exact ⟨a, hg.errand ha⟩
  | deliver n x => exact fun hfirst => Books.Heard.grow (ht hfirst) hg
  | resume n x => exact Books.Heard.grow ht hg
  | report n place x =>
    obtain ⟨a, g, hp, hrest⟩ := ht
    exact ⟨a, g, hp.grow hg, hrest⟩
  | wake n failure =>
    cases failure with
    | none =>
      obtain ⟨a, ha, hrest⟩ := ht
      exact ⟨a, hg.errand ha, hrest⟩
    | some f =>
      obtain ⟨a, g, place, hp, hrest⟩ := ht
      exact ⟨a, g, place, hp.grow hg, hrest⟩

theorem Ending.Accounted.grow {e : Ending} (he : e.Accounted b h) (hg : h.Grows h') :
    e.Accounted b h' := by
  obtain ⟨c, r, htaken, hcaller, hfail | ⟨n, a, saved, hfirst, ha, hrest⟩⟩ := he
  · exact ⟨c, r, htaken, hcaller, .inl hfail⟩
  · exact ⟨c, r, htaken, hcaller, .inr ⟨n, a, saved, hfirst, hg.errand ha, hrest⟩⟩

/-- The answer to a caller who has made no call so far depends on nothing that
    the tasks so far were told. -/
theorem Ending.Accounted.comesFrom_later {b' : Books} {e : Ending} (he : e.Accounted b' h')
    (hg : h.Grows h') (hh : h.Accounted b) (hfirst : b.first = b'.first)
    (hcaller : ∀ c r, b.taken c r → c.caller ≠ e.caller) :
    e.ComesFrom (b'.ToldSince h.errands.length) b'.taken := by
  obtain ⟨c, r, htaken, hname, hfail | ⟨n, a, saved, hn, ha, howner, hversion, hprepared, hx⟩⟩ := he
  · exact ⟨c, r, htaken, hname, .inl hfail⟩
  have hlater : h.errands.length ≤ n := by
    by_contra hlt
    have hold : h.errands[n]? = some a := by
      rw [List.getElem?_eq_getElem (Nat.not_le.mp hlt), ← ha]
      exact (hg.errand (List.getElem?_eq_getElem (Nat.not_le.mp hlt))).symm
    have howned := hh.owners n a (hfirst.trans_le hn) hold
    rw [howner] at howned
    obtain ⟨c', r', htaken', hname', -⟩ := howned
    exact hcaller c' r' htaken' hname'
  rw [← hversion] at hx
  exact ⟨c, r, htaken, hname, .inr ⟨a.formula, a.job, hprepared, hx.since hlater⟩⟩

/-- Tasks that others start do not matter to what a service accounts for. -/
theorem Service.Accounted.grow {s : Service} (hs : s.Accounted b h) (hg : h.Grows h')
    (hh : h'.Accounted b) : { s with nextTask := h'.errands.length }.Accounted b h' :=
  { hs with
    history := hh
    next := rfl
    tasks := fun t ht => (hs.tasks t ht).grow hg
    turns := fun turn hturn => (hs.turns turn hturn).grow hg
    endings := fun e he => (hs.endings e he).grow hg }

end Grow

/-! ### Wider books -/

/-- What is written down in the first books is in the second ones too. -/
structure Books.Within (b b' : Books) : Prop where
  told : ∀ n key x, b.told n key x → b'.told n key x
  taken : ∀ c r, b.taken c r → b'.taken c r
  first : b.first = b'.first

section Within

variable {b b' : Books} {h : History}

theorem Explained.widen {f : Compiled} {version : Value} {job : Job} {x : Attempt Response}
    {n : Nat} (hx : Explained (b.ToldSince n) f version job x) (hb : b.Within b') :
    Explained (b'.ToldSince n) f version job x :=
  hx.mono fun key x ⟨m, hm, htold⟩ => ⟨m, hm, hb.told m key x htold⟩

theorem Books.Heard.widen {n : Nat} {x : Attempt Result} (hx : b.Heard h n x)
    (hb : b.Within b') : b'.Heard h n x := by
  obtain ⟨a, entity, year, key, ha, hlooks, htold⟩ := hx
  exact ⟨a, entity, year, key, ha, hlooks, hb.told n key x htold⟩

theorem Books.Asks.widen {n : Nat} {key : CacheKey} (ha : b.Asks h n key) (hb : b.Within b') :
    b'.Asks h n key :=
  ⟨ha.1, fun hfirst => ha.2 (hb.first ▸ hfirst)⟩

theorem Owner.Accounted.widen {n : Nat} {a : Errand} {o : Owner} (ho : o.Accounted b h n a)
    (hb : b.Within b') : o.Accounted b' h n a := by
  cases o with
  | caller name saved =>
    obtain ⟨c, r, htaken, hrest⟩ := ho
    exact ⟨c, r, hb.taken c r htaken, hrest⟩
  | task m place => exact ho

theorem History.Accounted.widen (hh : h.Accounted b) (hb : b.Within b') : h.Accounted b' :=
  ⟨hb.first ▸ hh.first, fun n a hfirst ha => (hh.owners n a (hb.first ▸ hfirst) ha).widen hb⟩

theorem Turn.Accounted.widen {turn : Turn} (ht : turn.Accounted b h) (hb : b.Within b') :
    turn.Accounted b' h := by
  cases turn with
  | call | takeOff | granted | fetched => trivial
  | begin n => exact ht
  | deliver n x => exact fun hfirst => Books.Heard.widen (ht (hb.first ▸ hfirst)) hb
  | resume n x => exact Books.Heard.widen ht hb
  | report n place x =>
    obtain ⟨a, g, hp, hx⟩ := ht
    exact ⟨a, g, hp, hx.widen hb⟩
  | wake n failure =>
    cases failure with
    | none => exact ht
    | some f =>
      obtain ⟨a, g, place, hp, hx⟩ := ht
      exact ⟨a, g, place, hp, hx.widen hb⟩

theorem Ending.Accounted.widen {e : Ending} (he : e.Accounted b h) (hb : b.Within b') :
    e.Accounted b' h := by
  obtain ⟨c, r, htaken, hcaller,
    hfail | ⟨n, a, saved, hfirst, ha, howner, hversion, hprepared, hx⟩⟩ := he
  · exact ⟨c, r, hb.taken c r htaken, hcaller, .inl hfail⟩
  · exact ⟨c, r, hb.taken c r htaken, hcaller,
      .inr ⟨n, a, saved, hb.first ▸ hfirst, ha, howner, hversion, hprepared, hx.widen hb⟩⟩

/-- More that is written down does no harm. -/
theorem Service.Accounted.widen {s : Service} (hs : s.Accounted b h) (hb : b.Within b') :
    s.Accounted b' h :=
  { hs with
    history := hs.history.widen hb
    tasks := fun t ht => by
      obtain ⟨hfirst, herrand, hresults⟩ := hs.tasks t ht
      refine ⟨hb.first ▸ hfirst, herrand, fun r hr => ?_⟩
      obtain ⟨g, hg, hx⟩ := hresults r hr
      exact ⟨g, hg, hx.widen hb⟩
    turns := fun turn hturn => (hs.turns turn hturn).widen hb
    endings := fun e he => (hs.endings e he).widen hb }

end Within

/-! ### Books of what was delivered -/

/-- The tasks have been told what was delivered to them. -/
def Books.ofDeliveries (told : List (Delivery Nat)) (taken : Call → Registry → Prop)
    (first : Nat) : Books where
  told n key x := ∃ d ∈ told, d.caller = n ∧ d.key = key ∧ d.outcome = x
  taken := taken
  first := first

section Deliveries

variable {told more : List (Delivery Nat)} {taken taken' : Call → Registry → Prop} {first : Nat}

theorem Books.ofDeliveries_within (htaken : ∀ c r, taken c r → taken' c r) :
    (ofDeliveries told taken first).Within (ofDeliveries (told ++ more) taken' first) where
  told := fun _ _ _ ⟨d, hd, hrest⟩ => ⟨d, List.mem_append_left _ hd, hrest⟩
  taken := htaken
  first := rfl

/-- The answer to a caller who had made no call comes from what was delivered
    afterwards, and to later tasks. -/
theorem Ending.Accounted.comesFrom_since {h h' : History} {e : Ending}
    (he : e.Accounted (.ofDeliveries (told ++ more) taken' first) h') (hg : h.Grows h')
    (hh : h.Accounted (.ofDeliveries told taken first))
    (hold : ∀ d ∈ told, d.caller < h.errands.length)
    (hcaller : ∀ c r, taken c r → c.caller ≠ e.caller) :
    e.ComesFrom (fun key x => ∃ d ∈ more, h.errands.length ≤ d.caller ∧ d.key = key ∧ d.outcome = x)
      taken' := by
  refine (he.comesFrom_later hg hh rfl hcaller).mono ?_ fun _ _ htaken => htaken
  rintro key x ⟨n, hn, d, hd, rfl, hkey, hx⟩
  rcases List.mem_append.mp hd with hd | hd
  · exact absurd (hold d hd) (Nat.not_lt.mpr hn)
  · exact ⟨d, hd, hn, hkey, hx⟩

end Deliveries

/-! ### Who waits -/

namespace TracedCache

/-- Whoever waits for a flight asks for its key. -/
def WaitedFor (b : Books) (h : History) (w : TracedCache Nat) : Prop :=
  ∀ x ∈ w.waits, b.Asks h x.caller x.key

variable {b : Books} {h h' : History} {w : TracedCache Nat}

theorem WaitedFor.grow (hw : w.WaitedFor b h) (hg : h.Grows h') : w.WaitedFor b h' :=
  fun x hx => (hw x hx).grow hg

/-- Where only those ask who should, only they wait and are told something. -/
theorem WaitedFor.step (hw : w.WaitedFor b h) {e : SharedCache.Event Nat}
    (he : ∀ n key, e = .request n key → b.Asks h n key) :
    (w.step e).1.WaitedFor b h ∧ ∀ d ∈ (w.step e).2, b.Asks h d.caller d.key := by
  cases e with
  | request n key =>
    have hasks := he n key rfl
    have hmore : ∀ flight, ∀ x ∈ w.waits ++ [⟨w.calls, n, key, flight⟩], b.Asks h x.caller x.key := by
      intro flight x hx
      rcases List.mem_append.mp hx with hx | hx
      · exact hw x hx
      · obtain rfl := List.mem_singleton.mp hx
        exact hasks
    rcases w.step_request n key with
      ⟨fault, -, heq⟩ | ⟨-, e, -, -, heq⟩ | ⟨-, m, -, heq⟩ | ⟨-, -, -, heq⟩ <;> rw [heq]
    · exact ⟨hw, by simpa using hasks⟩
    · exact ⟨hw, by simpa using hasks⟩
    · exact ⟨hmore m, List.forall_mem_nil _⟩
    · exact ⟨hmore _, List.forall_mem_nil _⟩
  | land n outcome =>
    refine ⟨?_, ?_⟩
    · cases hf : w.shared.flight? n with
      | none =>
        rw [step_land_none hf]
        exact hw
      | some f =>
        rcases step_land hf outcome with ⟨r, -, -, heq⟩ | ⟨failure, -, heq⟩ | ⟨-, heq⟩ <;>
          rw [heq] <;> exact fun x hx => hw x (List.mem_of_mem_filter hx)
    · intro d hd
      obtain ⟨⟨x, hx, o, -, rfl⟩, -, -⟩ := land_delivery hd
      exact hw x hx
  | leave caller => exact ⟨fun x hx => hw x (List.mem_of_mem_filter hx), List.forall_mem_nil _⟩
  | evict key => exact ⟨hw, List.forall_mem_nil _⟩
  | invalidate entity year => exact ⟨hw, List.forall_mem_nil _⟩
  | clear => exact ⟨hw, List.forall_mem_nil _⟩
  | clock now => exact ⟨hw, List.forall_mem_nil _⟩

theorem WaitedFor.run (hw : w.WaitedFor b h) {es : List (SharedCache.Event Nat)}
    (hes : ∀ n key, .request n key ∈ es → b.Asks h n key) :
    (w.run es).1.WaitedFor b h ∧ ∀ d ∈ (w.run es).2, b.Asks h d.caller d.key := by
  induction es generalizing w with
  | nil => exact ⟨hw, List.forall_mem_nil _⟩
  | cons e es ih =>
    obtain ⟨hstep, htold⟩ := hw.step fun n key he => hes n key (he ▸ List.mem_cons_self)
    obtain ⟨hrun, hmore⟩ := ih hstep fun n key he => hes n key (List.mem_cons_of_mem e he)
    rw [run_cons]
    refine ⟨hrun, fun d hd => ?_⟩
    rcases List.mem_append.mp hd with hd | hd
    · exact htold d hd
    · exact hmore d hd

end TracedCache

/-- A traced cache stands for the cache of a service: only tasks wait that look
    up what they wait for, and every computation has its flight. -/
structure Service.Traced (b : Books) (h : History) (w : TracedCache Nat) (s : Service) :
    Prop where
  inv : w.Inv
  shared : w.shared = s.cache
  waits : w.WaitedFor b h
  computations : ∀ c ∈ s.computations, c.Started w

theorem Service.Traced.widen {b b' : Books} {h : History} {w : TracedCache Nat} {s : Service}
    (hw : s.Traced b h w) (hb : b.Within b') : s.Traced b' h w :=
  { hw with waits := fun x hx => (hw.waits x hx).widen hb }

end KeyFigures
