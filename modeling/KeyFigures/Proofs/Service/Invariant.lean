/-
  KeyFigures/Proofs/Service/Invariant.lean
  ========================================
  **What holds of a service at every moment of a run.**

  A run is watched together with its history: what each task was started for
  and the key of each flight, by number (`History`).  Histories only grow, so
  what is said about a number stays true when its task is given up.

  `Service.Sound` says that whatever is under way has the meaning that it is
  asked for: the entries of the cache, the outcomes that are handed on, the
  results that a task has collected.  Besides, no part of a task is counted
  twice: it is about to begin, under way, reported or collected
  (`Service.held`).
-/
import KeyFigures.Proofs.Cache.Operations
import KeyFigures.Proofs.Service.Work

namespace KeyFigures

/-- What a run is compared with: the answers of its source, the calls that are
    taken up with the registry of that moment, and the faults of its clock. -/
structure Surroundings where
  fetched : Value → Value → Value → Attempt Ledger
  taken : Call → Registry → Prop
  shown : TimeFault → Prop

/-! ### Meanings -/

namespace Surroundings

variable (w : Surroundings)

/-- What a call asks for, and the parts of that. -/
inductive Wanted : Compiled → Value → Job → Prop where
  | asked {c : Call} {r : Registry} {f : Compiled} {job : Job} (htaken : w.taken c r)
      (hprepared : r.prepare c = .ok (f, job)) : Wanted f c.version job
  | part {f : Compiled} {version : Value} {job : Job} {g : Figure} (h : Wanted f version job)
      (hg : g ∈ job.parts) : Wanted f version (.figure g)

/-- The outcome `y` is like `x`, unless the clock showed no time. -/
def Meets {α : Type} (R : α → α → Prop) (x y : Attempt α) : Prop :=
  Alike R x y ∨ ∃ fault, w.shown fault ∧ y = .error (.time fault)

/-- An outcome that is right for everyone who asks with a key. -/
def KeyMeans (key : CacheKey) (x : Attempt Result) : Prop :=
  ∀ f entity year version, w.Wanted f version (.figure (.single entity year)) →
    CacheKey.ofValues entity year version (.text f.key) = .ok key →
      w.Meets Result.Agrees (f.outcome w.fetched entity year version) x

/-- Whatever is asked for has a key that means one thing, and the parts of a
    job do not fail for different reasons. -/
structure Coherent : Prop where
  exists_key : ∀ {f entity year version}, w.Wanted f version (.figure (.single entity year)) →
    ∃ key, CacheKey.ofValues entity year version (.text f.key) = .ok key
  keyMeans : ∀ {f entity year version key}, w.Wanted f version (.figure (.single entity year)) →
    CacheKey.ofValues entity year version (.text f.key) = .ok key →
      w.KeyMeans key (f.outcome w.fetched entity year version)
  failsAlike : ∀ {f version job}, w.Wanted f version job → f.FailsAlike w.fetched version job

variable {w}

theorem Meets.of_fault {α : Type} {R : α → α → Prop} {x : Attempt α} {fault : TimeFault}
    (h : w.shown fault) : w.Meets R x (.error (.time fault)) :=
  .inr ⟨fault, h, rfl⟩

theorem Meets.map {α β : Type} {R : α → α → Prop} {S : β → β → Prop} {x y : Attempt α}
    {f : α → β} (h : w.Meets R x y) (hf : ∀ a b, R a b → S (f a) (f b)) :
    w.Meets S (x.map f) (y.map f) := by
  rcases h with h | ⟨fault, hshown, rfl⟩
  · exact .inl (h.map hf)
  · exact .of_fault hshown

theorem Meets.ok {α : Type} {R : α → α → Prop} {x : Attempt α} {b : α} (h : w.Meets R x (.ok b)) :
    ∃ a, x = .ok a ∧ R a b := by
  rcases h with h | ⟨fault, -, heq⟩
  · cases x with
    | ok a => exact ⟨a, rfl, h⟩
    | error f => exact h.elim
  · cases heq

theorem Meets.error {α : Type} {R : α → α → Prop} {x : Attempt α} {f : Failure}
    (h : w.Meets R x (.error f)) : x = .error f ∨ ∃ fault, w.shown fault ∧ f = .time fault := by
  rcases h with h | ⟨fault, hshown, heq⟩
  · cases x with
    | ok a => exact h.elim
    | error e => exact .inl (congrArg Except.error h)
  · exact .inr ⟨fault, hshown, Except.error.inj heq⟩

theorem Meets.contribution {kind : ResultKind} {x y : Attempt Result}
    (h : w.Meets Result.Agrees x y) :
    w.Meets Result.Agrees (Aggregate.contribution kind x) (Aggregate.contribution kind y) := by
  rcases h with h | ⟨fault, hshown, rfl⟩
  · exact .inl (Aggregate.contribution_alike kind h)
  · exact .of_fault hshown

end Surroundings

open Surroundings (Meets)

/-! ### Histories -/

/-- What a task is there for. -/
structure Errand where
  owner : Owner
  formula : Compiled
  version : Value
  job : Job

def Task.errand (t : Task) : Errand := ⟨t.owner, t.formula, t.version, t.job⟩

namespace Errand

def response (fetched : Value → Value → Value → Attempt Ledger) (a : Errand) : Attempt Response :=
  a.formula.response fetched a.version a.job

/-- An errand for the single figure of a key. -/
structure LooksUp (a : Errand) (entity year : Value) (key : CacheKey) : Prop where
  job_eq : a.job = .figure (.single entity year)
  key_eq : CacheKey.ofValues entity year a.version (.text a.formula.key) = .ok key

end Errand

/-- The errands of all tasks and the keys of all flights so far, by number. -/
structure History where
  errands : List Errand := []
  keys : List CacheKey := []

namespace History

/-- A part of a task in its place. -/
structure HasPart (h : History) (n place : Nat) (a : Errand) (g : Figure) : Prop where
  errand_eq : h.errands[n]? = some a
  check_eq : a.job.check = .ok ()
  part_eq : a.job.parts[place]? = some g

structure Grows (h h' : History) : Prop where
  errands : h.errands <+: h'.errands
  keys : h.keys <+: h'.keys

variable {h h' : History}

theorem Grows.refl (h : History) : h.Grows h := ⟨List.prefix_rfl, List.prefix_rfl⟩

theorem Grows.trans {h'' : History} (hg : h.Grows h') (hg' : h'.Grows h'') : h.Grows h'' :=
  ⟨hg.errands.trans hg'.errands, hg.keys.trans hg'.keys⟩

theorem Grows.errand (hg : h.Grows h') {n : Nat} {a : Errand} (ha : h.errands[n]? = some a) :
    h'.errands[n]? = some a := by
  obtain ⟨more, hmore⟩ := hg.errands
  rw [← hmore]
  exact List.getElem?_append_left (List.getElem?_eq_some_iff.mp ha).1 ▸ ha

theorem Grows.key (hg : h.Grows h') {n : Nat} {key : CacheKey} (hk : h.keys[n]? = some key) :
    h'.keys[n]? = some key := by
  obtain ⟨more, hmore⟩ := hg.keys
  rw [← hmore]
  exact List.getElem?_append_left (List.getElem?_eq_some_iff.mp hk).1 ▸ hk

theorem HasPart.grow {n place : Nat} {a : Errand} {g : Figure} (hp : h.HasPart n place a g)
    (hg : h.Grows h') : h'.HasPart n place a g where
  errand_eq := hg.errand hp.errand_eq
  check_eq := hp.check_eq
  part_eq := hp.part_eq

end History

/-! ### What is sound -/

section Sound

variable (w : Surroundings) (h : History)

/-- A caller has made the call, and a task has the part. -/
def Owner.Sound (a : Errand) : Owner → Prop
  | .caller name _ => ∃ c r, w.taken c r ∧ c.caller = name ∧ c.version = a.version ∧
      r.prepare c = .ok (a.formula, a.job)
  | .task n place => ∃ b g, h.HasPart n place b g ∧
      a.formula = b.formula ∧ a.version = b.version ∧ a.job = .figure g

structure Errand.Sound (a : Errand) : Prop where
  wanted : w.Wanted a.formula a.version a.job
  owner : a.owner.Sound w h a

structure Task.Sound (t : Task) : Prop where
  errand_eq : h.errands[t.number]? = some t.errand
  results : ∀ r ∈ t.results, ∃ g, t.job.parts[r.1]? = some g ∧
    w.Meets Result.Agrees (t.formula.figure w.fetched t.version g) (.ok r.2)

structure Computation.Sound (c : Computation) : Prop where
  route : h.keys[c.flight]? = some c.key
  wanted : w.Wanted c.formula c.version (.figure (.single c.entity c.year))
  key_eq : CacheKey.ofValues c.entity c.year c.version (.text c.formula.key) = .ok c.key

structure Flight.Sound (f : Flight Nat) : Prop where
  route : h.keys[f.number]? = some f.key
  waiting : ∀ n ∈ f.waiting, ∃ a entity year, h.errands[n]? = some a ∧
    a.LooksUp entity year f.key

structure SharedCache.Sound (c : SharedCache Nat) : Prop where
  entries : ∀ e ∈ c.cache.entries, w.KeyMeans e.key (.ok e.result)
  misses : c.cache.misses = h.keys.length
  registered : ∀ r ∈ c.cache.flights, h.keys[r.2]? = some r.1
  flights : ∀ f ∈ c.flights, f.Sound h
  clock : ∀ fault, c.now = .error fault → w.shown fault

/-- What is handed on by a turn is what it is asked for. -/
def Turn.Sound : Turn → Prop
  | .begin n => ∃ a, h.errands[n]? = some a
  | .deliver n x | .resume n x => ∃ a entity year, h.errands[n]? = some a ∧
      a.job = .figure (.single entity year) ∧
        w.Meets Result.Agrees (a.formula.outcome w.fetched entity year a.version) x
  | .report n place x => ∃ a g, h.HasPart n place a g ∧
      w.Meets Result.Agrees (a.formula.figure w.fetched a.version g) x
  | .wake n (some f) => ∃ a g place, h.HasPart n place a g ∧
      w.Meets Result.Agrees (a.formula.figure w.fetched a.version g) (.error f)
  | .wake n none => ∃ a, h.errands[n]? = some a ∧ a.job.isComposite ∧ a.job.check = .ok ()
  | .call _ | .takeOff _ | .granted _ | .fetched _ => True

/-- An ending is the answer to a call. -/
def Ending.Sound (e : Ending) : Prop :=
  ∃ c r, w.taken c r ∧ c.caller = e.caller ∧
    w.Meets Response.Agrees (r.response w.fetched c) e.outcome

end Sound

/-! ### Counting parts -/

/-- Whether a turn stands for the part of a task: the task is about to begin, or
    the part is reported. -/
def Turn.holds (n place : Nat) : Turn → Bool
  | .begin m => m == n
  | .report m q _ => m == n && q == place
  | _ => false

/-- How often a task stands for the part of a task: by being it, or by having
    collected its result. -/
def Task.holds (n place : Nat) (t : Task) : Nat :=
  (match t.owner with
    | .task m q => if m = n ∧ q = place then 1 else 0
    | .caller _ _ => 0) +
    if t.number = n then t.results.countP (·.1 == place) else 0

namespace Service

/-- How often the part of a task is accounted for. -/
def held (s : Service) (n place : Nat) : Nat :=
  s.ready.countP (·.holds n place) + (s.tasks.map (·.holds n place)).sum

/-- What a turn that is ready asks of the service. -/
structure Fits (s : Service) (turn : Turn) : Prop where
  unheld : ∀ n place, turn.holds n place → s.held n place = 0
  complete : ∀ n, turn = .wake n none → ∀ t ∈ s.tasks, t.number = n →
    t.job.parts.length ≤ t.results.length

/-- Everything under way has its meaning, and no part of a task is accounted
    for twice. -/
structure Sound (w : Surroundings) (h : History) (s : Service) : Prop where
  answers : ∀ entity year version, s.source.answer entity year version =
    w.fetched entity year version
  quiet : s.journal.IsQuiet
  history : ∀ a ∈ h.errands, a.Sound w h
  next : s.nextTask = h.errands.length
  cache : s.cache.Sound w h
  computations : ∀ c ∈ s.computations, c.Sound w h
  tasks : ∀ t ∈ s.tasks, t.Sound w h
  numbers : (s.tasks.map (·.number)).Nodup
  turns : ∀ turn ∈ s.ready, turn.Sound w h
  once : ∀ n place, s.held n place ≤ 1
  complete : ∀ n, .wake n none ∈ s.ready → ∀ t ∈ s.tasks, t.number = n →
    t.job.parts.length ≤ t.results.length
  endings : ∀ e ∈ s.endings, e.Sound w

end Service

end KeyFigures
