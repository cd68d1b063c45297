/-
  KeyFigures/Proofs/Service/Meaning.lean
  ======================================
  **What a call asks for.**

  Over a source that always answers the same, a figure has a meaning of its own:
  the formula on the ledger of one entity, or the sum of such results.  The
  meaning of a call is put together from figures, without a cache, without
  tasks and without turns (`Registry.response`).

  Meanings are compared up to the writing of numbers (`Response.Agrees`): sums
  of results that agree agree (`Aggregate.summed_agrees`), and so do whole
  responses.
-/
import KeyFigures.Proofs.Evaluation.Agreement
import KeyFigures.Proofs.Value.Failing
import KeyFigures.Service.Task

namespace KeyFigures

/-! ### Sums of results -/

namespace Aggregate

variable {rs ss : List Result}

theorem ofDecimal_alike {x y : Except Decimal.Fault Decimal} (h : Alike Decimal.Agrees x y) :
    Alike Decimal.Agrees (Attempt.ofDecimal x) (Attempt.ofDecimal y) := by
  cases x with
  | ok d =>
    cases y with
    | ok e => exact h
    | error f => exact h.elim
  | error f =>
    cases y with
    | ok e => exact h.elim
    | error f' => exact congrArg Failure.number h

theorem total_cons (sum : Decimal) (r : Result) (rest : List Result) :
    total sum (r :: rest) = total sum [r] >>= fun sum => total sum rest := by
  unfold total
  cases hvalue : r.value? with
  | none => simp [hvalue, bind, Except.bind, pure, Except.pure]
  | some d =>
    simp only [List.filterMap_cons, hvalue, List.filterMap_nil, List.foldlM_cons, List.foldlM_nil,
      bind_assoc, pure_bind]

theorem total_single_agrees {r s : Result} (h : r.Agrees s) {x y : Decimal}
    (hxy : Decimal.Agrees x y) : Alike Decimal.Agrees (total x [r]) (total y [s]) := by
  have hvalid : r.value?.isSome = s.value?.isSome := h.isValid_eq
  cases hr : r.value? with
  | none =>
    rw [hr] at hvalid
    have hs : s.value? = none := by simpa using hvalid.symm
    simpa [total, hr, hs, pure, Except.pure, Alike] using hxy
  | some d =>
    rw [hr] at hvalid
    obtain ⟨e, hs⟩ := Option.isSome_iff_exists.mp hvalid.symm
    have hsum := ofDecimal_alike (Decimal.add_agrees hxy (h.value_agrees d e hr hs))
    simpa [total, hr, hs] using hsum

theorem total_agrees (h : List.Forall₂ Result.Agrees rs ss) :
    ∀ {x y : Decimal}, Decimal.Agrees x y → Alike Decimal.Agrees (total x rs) (total y ss) := by
  induction h with
  | nil => exact fun hxy => hxy
  | cons hrs _ ih =>
    intro x y hxy
    rw [total_cons, total_cons y]
    exact (total_single_agrees hrs hxy).bind fun _ _ => ih

theorem vetted_congr {r s : Result} (h : r.Agrees s) : vetted r = vetted s := by
  unfold vetted
  rw [h.warnings_eq, h.error_eq]

theorem checked_agrees (h : List.Forall₂ Result.Agrees rs ss) :
    ∀ {x y : Decimal}, Decimal.Agrees x y → checked x rs = checked y ss := by
  induction h with
  | nil => exact fun _ => rfl
  | @cons r s rs ss hrs _ ih =>
    intro x y hxy
    unfold checked
    rw [vetted_congr hrs]
    cases vetted s with
    | error f => rfl
    | ok _ =>
      have htotal := total_single_agrees hrs hxy
      revert htotal
      simp only [bind, Except.bind]
      rcases total x [r] with f | d <;> rcases total y [s] with f' | d' <;> intro htotal
      · exact congrArg Except.error htotal
      · exact htotal.elim
      · exact htotal.elim
      · exact ih htotal

theorem kindOf_congr (kind : ResultKind) (h : List.Forall₂ Result.Agrees rs ss) :
    kindOf kind rs = kindOf kind ss := by
  induction h with
  | nil => rfl
  | @cons r s rs ss hrs _ ih =>
    unfold kindOf at ih ⊢
    rw [List.find?_cons, List.find?_cons, hrs.isValid_eq]
    cases s.isValid with
    | true => simp [hrs.kind_eq]
    | false => exact ih

theorem warnings_congr (h : List.Forall₂ Result.Agrees rs ss) : warnings rs = warnings ss := by
  have hflat : rs.flatMap (·.warnings) = ss.flatMap (·.warnings) := by
    induction h with
    | nil => rfl
    | cons hrs _ ih => rw [List.flatMap_cons, List.flatMap_cons, hrs.warnings_eq, ih]
  rw [warnings, warnings, hflat]

theorem any_isValid_congr (h : List.Forall₂ Result.Agrees rs ss) :
    rs.any (·.isValid) = ss.any (·.isValid) := by
  induction h with
  | nil => rfl
  | cons hrs _ ih => rw [List.any_cons, List.any_cons, hrs.isValid_eq, ih]

/-- Results that agree have sums that agree, or that fail alike. -/
theorem summed_agrees (kind : ResultKind) (h : List.Forall₂ Result.Agrees rs ss) :
    Alike Result.Agrees (summed kind rs) (summed kind ss) := by
  have hchecked : Alike (fun _ _ => True) (checked .zero rs) (checked .zero ss) := by
    rw [checked_agrees h (.same .zero)]
    exact Alike.refl (fun _ => trivial) _
  refine hchecked.bind fun _ _ _ => (total_agrees h (.same .zero)).bind fun x y hxy => ?_
  rw [any_isValid_congr h, kindOf_congr kind h, warnings_congr h]
  refine ⟨rfl, rfl, ?_, ?_⟩
  · cases ss.any (·.isValid) <;> rfl
  · intro d e hd he
    revert hd he
    cases ss.any (·.isValid) with
    | true =>
      rintro ⟨⟩ ⟨⟩
      exact hxy
    | false => nofun

theorem contribution_alike {r s : Attempt Result} (kind : ResultKind)
    (h : Alike Result.Agrees r s) :
    Alike Result.Agrees (contribution kind r) (contribution kind s) := by
  cases r with
  | ok r =>
    cases s with
    | ok s => exact h
    | error f => exact h.elim
  | error f =>
    cases s with
    | ok s => exact h.elim
    | error f' =>
      obtain rfl : f = f' := h
      exact Alike.refl Result.Agrees.refl _

end Aggregate

/-! ### Responses -/

/-- Two responses of one shape with results that agree. -/
inductive Response.Agrees : Response → Response → Prop where
  | figure {r s : Result} (h : r.Agrees s) : Agrees (.figure r) (.figure s)
  | series {ps qs : List SeriesPoint}
      (h : List.Forall₂ (fun p q => p.year = q.year ∧ p.result.Agrees q.result) ps qs) :
      Agrees (.series ps) (.series qs)

theorem forall₂_trans {α : Type} {R : α → α → Prop} (hR : ∀ a b c, R a b → R b c → R a c)
    {xs ys : List α} (h : List.Forall₂ R xs ys) :
    ∀ {zs : List α}, List.Forall₂ R ys zs → List.Forall₂ R xs zs := by
  induction h with
  | nil => exact fun h' => h'
  | cons hxy _ ih =>
    rintro zs (_ | ⟨hyz, h'⟩)
    exact .cons (hR _ _ _ hxy hyz) (ih h')

namespace Response

theorem Agrees.symm {x y : Response} (h : x.Agrees y) : y.Agrees x := by
  cases h with
  | figure h => exact .figure h.symm
  | series h => exact .series (h.flip.imp fun _ _ hpq => ⟨hpq.1.symm, hpq.2.symm⟩)

theorem Agrees.trans {x y z : Response} (hxy : x.Agrees y) (hyz : y.Agrees z) : x.Agrees z := by
  cases hxy with
  | figure h =>
    cases hyz with
    | figure h' => exact .figure (h.trans h')
  | series h =>
    cases hyz with
    | series h' =>
      exact .series (forall₂_trans (fun _ _ _ hpq hqr => ⟨hpq.1.trans hqr.1, hpq.2.trans hqr.2⟩)
        h h')

end Response

/-! ### The meaning of a call -/

section Meaning

variable (fetched : Value → Value → Value → Attempt Ledger)

namespace Compiled

/-- The formula on the ledger of an entity, a year and a version. -/
def outcome (f : Compiled) (entity year version : Value) : Attempt Result :=
  fetched entity year version >>= fun ledger => f.tree.result ledger.balances f.kind

/-- A figure: one with a missing ledger is an invalid result. -/
def figure (f : Compiled) (version : Value) : Figure → Attempt Result
  | .single entity year => Aggregate.contribution f.kind (f.outcome fetched entity year version)
  | .sum entities year => do
    let entities ← Aggregate.entitiesOf entities
    let results ← entities.mapM fun entity =>
      Aggregate.contribution f.kind (f.outcome fetched entity year version)
    Aggregate.summed f.kind results

/-- The point of a year. -/
def point (f : Compiled) (version : Value) (entities : List Value) (year : Int) :
    Attempt SeriesPoint :=
  (f.figure fetched version (.ofYear entities (.int year))).map (⟨year, ·⟩)

def response (f : Compiled) (version : Value) : Job → Attempt Response
  | .figure g => (f.figure fetched version g).map .figure
  | .series entities first last => do
    let (first, last) ← Series.range first last
    ((Series.years first last).mapM (f.point fetched version entities)).map .series

end Compiled

/-- What a call is compiled to and asks for. -/
def Registry.prepare (r : Registry) (c : Call) : Attempt (Compiled × Job) := do
  let formula ← r.compile c.formula
  let job ← c.job
  .ok (formula, job)

/-- The meaning of a call. -/
def Registry.response (r : Registry) (c : Call) : Attempt Response := do
  let (formula, job) ← r.prepare c
  formula.response fetched c.version job

end Meaning

/-! ### Meanings from parts -/

namespace Job

/-- The single figures that a job comes down to. -/
def singles : Job → List (Value × Value)
  | .figure (.single entity year) => [(entity, year)]
  | .figure (.sum entities year) => (Value.distinct entities).map (·, year)
  | .series entities first last =>
    (yearsOf first last).flatMap fun year =>
      match Figure.ofYear entities (.int year) with
      | .single entity year => [(entity, year)]
      | .sum entities year => (Value.distinct entities).map (·, year)

theorem singles_subset_of_part {job : Job} {g : Figure} (h : g ∈ job.parts) :
    (Job.figure g).singles ⊆ job.singles := by
  match job, h with
  | .figure (.sum entities year), h =>
    obtain ⟨entity, hentity, rfl⟩ := List.mem_map.mp h
    intro x hx
    obtain rfl := List.mem_singleton.mp hx
    exact List.mem_map.mpr ⟨entity, hentity, rfl⟩
  | .series entities first last, h =>
    obtain ⟨year, hyear, rfl⟩ := List.mem_map.mp h
    intro x hx
    refine List.mem_flatMap.mpr ⟨year, hyear, ?_⟩
    revert hx
    cases Figure.ofYear entities (.int year) <;> exact id

/-- The response to a job with parts, from their results. -/
def combine (kind : ResultKind) (results : List Result) : Job → Attempt Response
  | .figure (.single _ _) => .ok (.figure (.missing kind))
  | .figure (.sum _ _) => (Aggregate.summed kind results).map .figure
  | .series _ first last =>
    .ok (.series (((yearsOf first last).zip results).map fun (year, r) => ⟨year, r⟩))

/-- Whether a job has parts, whatever they are. -/
def isComposite : Job → Bool
  | .figure (.single _ _) => false
  | _ => true

theorem entitiesOf_eq {entities es : List Value} (h : Aggregate.entitiesOf entities = .ok es) :
    es = Value.distinct entities := by
  unfold Aggregate.entitiesOf at h
  split at h
  · cases h
  · split at h
    · cases h
    · exact (Except.ok.inj h).symm

end Job

section Parts

variable {fetched : Value → Value → Value → Attempt Ledger} {f : Compiled} {version : Value}

theorem mapM_point {entities : List Value} (years : List Int) :
    years.mapM (f.point fetched version entities) =
      (years.mapM fun year => f.figure fetched version (.ofYear entities (.int year))).map
        fun results => (years.zip results).map fun (year, r) => (⟨year, r⟩ : SeriesPoint) := by
  induction years with
  | nil => rfl
  | cons year years ih =>
    rw [List.mapM_cons, List.mapM_cons, ih, Compiled.point]
    cases f.figure fetched version (.ofYear entities (.int year)) with
    | error e => rfl
    | ok r =>
      cases years.mapM fun year => f.figure fetched version (.ofYear entities (.int year)) <;> rfl

/-- The meaning of a job with parts: it is checked, and the meanings of its parts
    are put together. -/
theorem Compiled.response_eq {job : Job} (h : job.isComposite) :
    f.response fetched version job = (do
      job.check
      let results ← job.parts.mapM (f.figure fetched version)
      job.combine f.kind results) := by
  match job, h with
  | .figure (.sum entities year), _ =>
    have hparts : (Job.figure (.sum entities year)).parts.mapM (f.figure fetched version) =
        (Value.distinct entities).mapM fun entity =>
          Aggregate.contribution f.kind (f.outcome fetched entity year version) := by
      rw [Job.parts, List.mapM_map]
      rfl
    show (do
      let entities ← Aggregate.entitiesOf entities
      let results ← entities.mapM fun entity =>
        Aggregate.contribution f.kind (f.outcome fetched entity year version)
      Aggregate.summed f.kind results).map Response.figure = (do
        (Aggregate.entitiesOf entities).map fun _ => ()
        let results ← (Job.figure (.sum entities year)).parts.mapM (f.figure fetched version)
        (Aggregate.summed f.kind results).map Response.figure)
    rw [hparts]
    cases hentities : Aggregate.entitiesOf entities with
    | error e => rfl
    | ok es =>
      obtain rfl := Job.entitiesOf_eq hentities
      simp only [Except.map, bind, Except.bind]
      cases (Value.distinct entities).mapM fun entity =>
        Aggregate.contribution f.kind (f.outcome fetched entity year version) <;> rfl
  | .series entities first last, _ =>
    show (do
      let range ← Series.range first last
      ((Series.years range.1 range.2).mapM (f.point fetched version entities)).map
        Response.series) = (do
          (Series.range first last).map fun _ => ()
          let results ← (Job.series entities first last).parts.mapM (f.figure fetched version)
          (Job.series entities first last).combine f.kind results)
    cases hrange : Series.range first last with
    | error e => rfl
    | ok range =>
      have hyears : Job.yearsOf first last = Series.years range.1 range.2 := by
        unfold Job.yearsOf
        rw [hrange]
      have hparts : (Job.series entities first last).parts.mapM (f.figure fetched version) =
          (Series.years range.1 range.2).mapM fun year =>
            f.figure fetched version (.ofYear entities (.int year)) := by
        rw [Job.parts, hyears, List.mapM_map]
        rfl
      simp only [Except.map, bind, Except.bind, hparts, mapM_point, Job.combine, hyears]
      cases (Series.years range.1 range.2).mapM fun year =>
        f.figure fetched version (.ofYear entities (.int year)) <;> rfl

/-- No two parts of a job fail for different reasons. -/
def Compiled.FailsAlike (fetched : Value → Value → Value → Attempt Ledger) (f : Compiled)
    (version : Value) (job : Job) : Prop :=
  ∀ g ∈ job.parts, ∀ g' ∈ job.parts, ∀ e e', f.figure fetched version g = .error e →
    f.figure fetched version g' = .error e' → e = e'

theorem Job.isComposite_of_check {job : Job} {e : Failure} (h : job.check = .error e) :
    job.isComposite = true := by
  match job with
  | .figure (.single _ _) => cases h
  | .figure (.sum _ _) => rfl
  | .series _ _ _ => rfl

theorem Job.isComposite_of_part {job : Job} {g : Figure} (h : g ∈ job.parts) :
    job.isComposite = true := by
  match job with
  | .figure (.single _ _) => cases h
  | .figure (.sum _ _) => rfl
  | .series _ _ _ => rfl

/-- A job that is refused has no other meaning. -/
theorem Compiled.response_of_check {job : Job} {e : Failure} (h : job.check = .error e) :
    f.response fetched version job = .error e := by
  rw [response_eq (Job.isComposite_of_check h), h]
  rfl

/-- A job with a failing part fails like it. -/
theorem Compiled.response_of_failing {job : Job} (hcheck : job.check = .ok ())
    (hsame : f.FailsAlike fetched version job) {g : Figure} (hg : g ∈ job.parts) {e : Failure}
    (he : f.figure fetched version g = .error e) : f.response fetched version job = .error e := by
  have hparts : job.parts.mapM (f.figure fetched version) = .error e :=
    mapM_eq_error ⟨g, hg, he⟩ fun g' hg' e' he' => hsame g' hg' g hg e' e he' he
  rw [response_eq (Job.isComposite_of_part hg), hcheck]
  simp only [bind, Except.bind, hparts]

theorem forall₂_exists {α β γ : Type} {R : α → β → Prop} {S : β → γ → Prop} {xs : List α}
    {zs : List γ} (h : List.Forall₂ (fun x z => ∃ y, R x y ∧ S y z) xs zs) :
    ∃ ys, List.Forall₂ R xs ys ∧ List.Forall₂ S ys zs := by
  induction h with
  | nil => exact ⟨[], .nil, .nil⟩
  | cons hxz _ ih =>
    obtain ⟨y, hxy, hyz⟩ := hxz
    obtain ⟨ys, hxs, hzs⟩ := ih
    exact ⟨y :: ys, .cons hxy hxs, .cons hyz hzs⟩

theorem Job.combine_agrees (job : Job) (kind : ResultKind) {rs ss : List Result}
    (h : List.Forall₂ Result.Agrees rs ss) :
    Alike Response.Agrees (job.combine kind rs) (job.combine kind ss) := by
  match job with
  | .figure (.single _ _) => exact .figure (.refl _)
  | .figure (.sum _ _) => exact (Aggregate.summed_agrees kind h).map fun _ _ hrs => .figure hrs
  | .series _ first last =>
    refine Response.Agrees.series ?_
    generalize Job.yearsOf first last = years
    induction h generalizing years with
    | nil => simp
    | cons hrs _ ih =>
      cases years with
      | nil => simp
      | cons year years => exact .cons ⟨rfl, hrs⟩ (ih years)

/-- The response from the results of all parts agrees with the meaning. -/
theorem Compiled.response_alike_combine {job : Job} (hcomposite : job.isComposite)
    (hcheck : job.check = .ok ()) {results : List Result}
    (h : List.Forall₂ (fun g r => ∃ x, f.figure fetched version g = .ok x ∧ x.Agrees r)
      job.parts results) :
    Alike Response.Agrees (f.response fetched version job) (job.combine f.kind results) := by
  obtain ⟨xs, hxs, hagree⟩ := forall₂_exists h
  have hparts : job.parts.mapM (f.figure fetched version) = .ok xs := mapM_eq_ok_iff.mpr hxs
  rw [response_eq hcomposite, hcheck]
  simp only [bind, Except.bind, hparts]
  exact job.combine_agrees f.kind hagree

end Parts

end KeyFigures
