/-
  KeyFigures/Proofs/Service/Group.lean
  ====================================
  **One formula over a group of entities.**

  A course is any way in which the evaluations for the entities of a group may
  begin and end under any limit (`Group.Course`).  Every course comes to an end,
  at which every entity has been evaluated once, and all courses end with the
  same answer (`Group.Course.leadsTo`).

  That answer is the decimal sum of the valid results in the order of first
  occurrence, or nothing if there is none, with the warnings of all entities
  (`Group.sum_over_group`).  Entities without a valid result can be left out of
  the group without changing the value.
-/
import KeyFigures.Proofs.Evaluation.Unmatched
import KeyFigures.Proofs.Service.Gathering
import KeyFigures.Proofs.Service.Work
import KeyFigures.Service.Group

namespace KeyFigures

/-! ### Sums that are there -/

namespace Aggregate

variable {results : List Result} {sum t : Decimal}

/-- Adding up fails only as the additions do. -/
theorem total_eq_ok_iff :
    total sum results = .ok t ↔ (results.filterMap (·.value?)).foldlM Decimal.add sum = .ok t := by
  unfold total
  induction results.filterMap (·.value?) generalizing sum with
  | nil =>
    exact ⟨fun h => congrArg Except.ok (Except.ok.inj h),
      fun h => congrArg Except.ok (Except.ok.inj h)⟩
  | cons d values ih =>
    rw [List.foldlM_cons, List.foldlM_cons]
    cases sum.add d with
    | error f => exact ⟨nofun, nofun⟩
    | ok sum' => exact ih

/-- Results that can be taken in and summed up pass the check on the way. -/
theorem checked_of_total (hvetted : ∀ r ∈ results, vetted r = .ok ())
    (htotal : total sum results = .ok t) : checked sum results = .ok () := by
  induction results generalizing sum with
  | nil => rfl
  | cons r results ih =>
    obtain ⟨hr, hresults⟩ := List.forall_mem_cons.mp hvetted
    rw [total_cons] at htotal
    obtain ⟨sum', hsum', hrest⟩ := Attempt.bind_eq_ok.mp htotal
    unfold checked
    rw [hr]
    show (total sum [r] >>= fun sum => checked sum results) = _
    rw [hsum']
    exact ih hresults hrest

theorem summed_of_total (kind : ResultKind) (hvetted : ∀ r ∈ results, vetted r = .ok ())
    (htotal : total .zero results = .ok t) :
    summed kind results = .ok
      ⟨if results.any (·.isValid) then .value t else .invalid .noValidContributions,
        kindOf kind results, warnings results⟩ := by
  unfold summed
  rw [checked_of_total hvetted htotal]
  show (total .zero results >>= _) = _
  rw [htotal]
  rfl

end Aggregate

/-! ### Courses -/

namespace Group

/-- A limit as data. -/
def limitData (limit : Option Nat) : Value := (limit.map fun n => .int n).getD .null

/-- A course of an aggregation: a limit, if there is one, and evaluations that
    begin and end in any order.  Nobody cancels it. -/
structure Course (g : Group) where
  limit : Option Nat
  limit_ne : limit ≠ some 0
  atOnce : Nat → Bool
  events : List (FanOut.Event Result)
  completes : ∀ e ∈ events, e.Completes g.outcome

namespace Course

variable {g : Group}

/-- The aggregation before its first turn. -/
def begun (c : g.Course) : FanOut Result :=
  FanOut.start g.entities.length c.limit fun job =>
    if c.atOnce job then some (g.outcome job) else none

/-- The aggregation after the events. -/
def state (c : g.Course) : FanOut Result := c.begun.run c.events

/-- The entities whose evaluation has started, in that order. -/
def evaluated (c : g.Course) : List String := c.state.started.map g.entity

/-- The course leads to the answer: no entity is evaluated twice, only so many
    events do anything, and one can until nothing is left to do; then every
    entity has been evaluated and the answer is given in every journal. -/
structure LeadsTo (c : g.Course) (r : Result) : Prop where
  started : g.start (limitData c.limit) c.atOnce = .ok c.begun
  once : c.evaluated.Subperm g.entities
  bounded : c.begun.ActsAll c.events → c.events.length ≤ 6 * g.entities.length + 1
  goesOn : ¬c.state.IsIdle → ∃ e : FanOut.Event Result, e.Completes g.outcome ∧ e.Acts c.state
  ended : c.state.IsIdle → c.evaluated.Perm g.entities ∧
    ∃ work, g.answer c.state = some work ∧ ∀ j : Log.Journal, (work.play j).1 = .ok r

end Course

/-! ### What evaluations contribute -/

/-- What the evaluation comes to, unless it fails. -/
def result? (g : Group) (id : String) : Option Result := (g.evaluation id).toOption

/-- The evaluation comes to a valid result. -/
def isValidFor (g : Group) (id : String) : Bool := (g.result? id).any (·.isValid)

/-- The values of the valid results, in the order of first occurrence. -/
def values (g : Group) : List Decimal :=
  g.entities.filterMap fun id => (g.result? id).bind (·.value?)

/-- The warnings of all entities, in the order of first occurrence. -/
def warnings (g : Group) : List Warning :=
  g.entities.flatMap fun id => ((g.result? id).map (·.warnings)).getD []

/-- The entities with a valid result, and as often as before. -/
def validOnes (g : Group) : Group := { g with ids := g.ids.filter g.isValidFor }

/-- The evaluation comes to a value, to nothing for a proper reason, or finds no
    ledger; and what it warns of are texts. -/
def Yields : Attempt Result → Prop
  | .ok r => (∀ error, r.error? = some error → ∃ word, error.text = .ok word) ∧
      ∀ w ∈ r.warnings, ∃ s, w.reference = .text s
  | .error f => f.isMissingLedger = true

/-- What an evaluation adds to the sum: its result, or that there is no ledger. -/
def contributed (kind : ResultKind) : Attempt Result → Result
  | .ok r => r
  | .error _ => .missing kind

/-- What the entities add to the sum. -/
def contributions (g : Group) : List Result :=
  g.entities.map fun id => contributed g.kind (g.evaluation id)

namespace Yields

variable {x : Attempt Result} {kind : ResultKind}

theorem contribution_eq (h : Yields x) :
    Aggregate.contribution kind x = .ok (contributed kind x) := by
  cases x with
  | ok r => rfl
  | error f => exact if_pos h

theorem texts (h : Yields x) :
    ∀ w ∈ (contributed kind x).warnings, ∃ s, w.reference = .text s := by
  cases x with
  | ok r => exact h.2
  | error f => exact nofun

theorem vetted (h : Yields x) : Aggregate.vetted (contributed kind x) = .ok () := by
  have hkeys : (contributed kind x).warnings.all (·.reference.isKey) = true := by
    refine List.all_eq_true.mpr fun w hw => ?_
    obtain ⟨s, hs⟩ := h.texts w hw
    rw [hs]
    rfl
  have hreason : ∀ error, (contributed kind x).error? = some error →
      ∃ word, Aggregate.reason error = .ok word := by
    intro error herror
    obtain ⟨word, hword⟩ : ∃ word, error.text = .ok word := by
      cases x with
      | ok r => exact h.1 error herror
      | error f =>
        cases herror
        exact ⟨_, rfl⟩
    unfold Aggregate.reason
    split
    · exact ⟨word, hword⟩
    · exact ⟨_, rfl⟩
  unfold Aggregate.vetted
  rw [hkeys]
  cases herror : (contributed kind x).error? with
  | none => rfl
  | some error =>
    obtain ⟨word, hword⟩ := hreason error herror
    show (Aggregate.reason error >>= fun _ => _) = _
    rw [hword]
    rfl

end Yields

section Contributions

variable {g : Group}

theorem mem_entities {id : String} : id ∈ g.entities ↔ id ∈ g.ids := List.mem_eraseDups

theorem value?_contributed (id : String) :
    (contributed g.kind (g.evaluation id)).value? = (g.result? id).bind (·.value?) := by
  unfold result?
  cases g.evaluation id <;> rfl

theorem warnings_contributed (id : String) :
    (contributed g.kind (g.evaluation id)).warnings =
      ((g.result? id).map (·.warnings)).getD [] := by
  unfold result?
  cases g.evaluation id <;> rfl

theorem isValidFor_eq (id : String) :
    g.isValidFor id = (contributed g.kind (g.evaluation id)).isValid := by
  unfold isValidFor result?
  cases g.evaluation id <;> rfl

theorem filterMap_contributions : g.contributions.filterMap (·.value?) = g.values := by
  rw [contributions, List.filterMap_map]
  exact List.filterMap_congr fun id _ => value?_contributed id

theorem any_contributions : g.contributions.any (·.isValid) = true ↔
    ∃ id ∈ g.ids, g.isValidFor id = true := by
  rw [contributions, List.any_map, List.any_eq_true]
  simp only [Function.comp_apply, isValidFor_eq, mem_entities]

/-- The merged warnings are those of all entities without repeats. -/
theorem warnings_contributions (h : ∀ id ∈ g.ids, Yields (g.evaluation id)) :
    Aggregate.warnings g.contributions = g.warnings.eraseDups := by
  have hall : g.contributions.flatMap (·.warnings) = g.warnings := by
    rw [contributions, List.flatMap_map]
    exact List.flatMap_congr fun id _ => warnings_contributed id
  rw [Aggregate.warnings, ← hall]
  refine Warning.merge_eq_eraseDups fun w hw => ?_
  obtain ⟨r, hr, hw⟩ := List.mem_flatMap.mp hw
  obtain ⟨id, hid, rfl⟩ := List.mem_map.mp hr
  exact (h id (mem_entities.mp hid)).texts w hw

/-- What the contributions of a group sum up to. -/
theorem summed_contributions {total : Decimal} (h : ∀ id ∈ g.ids, Yields (g.evaluation id))
    (htotal : g.values.foldlM Decimal.add .zero = .ok total) :
    Aggregate.summed g.kind g.contributions = .ok
      ⟨if g.contributions.any (·.isValid) then .value total else .invalid .noValidContributions,
        Aggregate.kindOf g.kind g.contributions, g.warnings.eraseDups⟩ := by
  rw [← warnings_contributions h]
  refine Aggregate.summed_of_total g.kind (fun r hr => ?_) (Aggregate.total_eq_ok_iff.mpr ?_)
  · obtain ⟨id, hid, rfl⟩ := List.mem_map.mp hr
    exact (h id (mem_entities.mp hid)).vetted
  · rw [filterMap_contributions]
    exact htotal

end Contributions

/-! ### Starting -/

theorem limitOf_limitData {limit : Option Nat} (h : limit ≠ some 0) :
    FanOut.limitOf (limitData limit) = .ok limit := by
  cases limit with
  | none => rfl
  | some n =>
    have hone : compare (n : Int) 1 ≠ .lt := by
      have hn : n ≠ 0 := fun hn => h (congrArg some hn)
      rw [Ne, compare_lt_iff_lt]
      omega
    have hbefore : (Value.int n).before? (.int 1) = some false := by
      simp [Value.before?, Value.magnitude?, Magnitude.compare?, hone]
    have hwhole : ((Value.int n).magnitude?.bind Magnitude.whole?).map Int.toNat = some n := by
      simp [Value.magnitude?, Magnitude.whole?]
    show FanOut.limitOf (.int n) = _
    unfold FanOut.limitOf
    rw [hbefore, hwhole]
    rfl

theorem entitiesOf_ids {g : Group} (h : g.ids ≠ []) :
    Aggregate.entitiesOf (g.ids.map .text) = .ok (g.entities.map .text) := by
  unfold Aggregate.entitiesOf
  rw [if_neg (by simp [Value.isKey]), if_neg (by simpa using h), Value.distinct_map_text]
  rfl

theorem Course.start_eq {g : Group} (h : g.ids ≠ []) (c : g.Course) :
    g.start (limitData c.limit) c.atOnce = .ok c.begun := by
  unfold start
  rw [entitiesOf_ids h, limitOf_limitData c.limit_ne]
  show Except.ok (FanOut.start (g.entities.map Value.text).length c.limit _) = _
  rw [List.length_map]
  rfl

/-! ### Every course ends with the sum -/

theorem map_entity_range (g : Group) :
    (List.range g.entities.length).map g.entity = g.entities := by
  refine List.ext_getElem (by simp) fun job _ hjob => ?_
  simp [entity, hjob]

theorem mapM_contribution {g : Group} (h : ∀ id ∈ g.ids, Yields (g.evaluation id)) :
    (g.entities.mapM fun id => Aggregate.contribution g.kind (g.evaluation id)) =
      .ok g.contributions := by
  rw [mapM_eq_ok_iff, contributions]
  refine List.forall₂_map_right_iff.mpr (List.forall₂_same.mpr fun id hid => ?_)
  exact (h id (mem_entities.mp hid)).contribution_eq

/-- The evaluations come to the contributions, in the order of the entities. -/
theorem mapM_outcome {g : Group} (h : ∀ id ∈ g.ids, Yields (g.evaluation id)) :
    (List.range g.entities.length).mapM g.outcome = .ok g.contributions := by
  rw [← mapM_contribution h]
  conv_rhs => rw [← map_entity_range g, List.mapM_map]
  rfl

namespace Course

variable {g : Group} (c : g.Course)

theorem sound (h : ∀ id ∈ g.ids, Yields (g.evaluation id)) :
    c.state.Sound g.outcome g.entities.length c.limit := by
  have hbegun : c.begun.Sound g.outcome g.entities.length c.limit := by
    refine FanOut.Sound.start fun job outcome hatOnce => ?_
    split at hatOnce
    · exact (Option.some.inj hatOnce).symm
    · cases hatOnce
  refine hbegun.run (fun job hjob => ?_) c.completes
  obtain ⟨r, -, hr⟩ := exists_of_mem_of_mapM (mapM_outcome h) (List.mem_range.mpr hjob)
  exact ⟨r, hr⟩

/-- **Every course leads to the sum of the contributions.** -/
theorem leadsTo (hids : g.ids ≠ []) (h : ∀ id ∈ g.ids, Yields (g.evaluation id)) {r : Result}
    (hsum : Aggregate.summed g.kind g.contributions = .ok r) : c.LeadsTo r where
  started := c.start_eq hids
  once := by
    obtain ⟨jobs, hjobs, hamong⟩ := (c.sound h).started_subperm
    have hentities := hamong.map g.entity
    rw [map_entity_range] at hentities
    exact ⟨jobs.map g.entity, hjobs.map g.entity, hentities⟩
  bounded := fun hacts => (FanOut.length_le_left hacts).trans (FanOut.left_start_le _ _ _)
  goesOn := by
    intro hbusy
    by_cases hready : c.state.ready = []
    · obtain ⟨job, hjob⟩ := List.exists_mem_of_ne_nil c.state.running fun hrunning =>
        hbusy ⟨hready, hrunning⟩
      exact ⟨.finish job (g.outcome job), rfl, hjob⟩
    · exact ⟨.take, trivial, hready⟩
  ended := by
    intro hidle
    obtain ⟨results, hconclusion, hresults, hstarted⟩ :=
      (c.sound h).values_of_idle c.limit_ne hidle
    rw [mapM_outcome h] at hresults
    obtain rfl := Except.ok.inj hresults
    have hevaluated := hstarted.map g.entity
    rw [map_entity_range] at hevaluated
    refine ⟨hevaluated, Aggregate.summedRecorded g.kind (g.entities.map .text) g.contributions,
      ?_, fun j => ?_⟩
    · unfold answer
      rw [hconclusion]
    · rw [Aggregate.fst_play_summedRecorded, hsum]

end Course

/-- The result sums up the group: it is valid exactly if there is a valid
    contribution, and then has that value. -/
structure IsSummedUp (g : Group) (total : Decimal) (r : Result) : Prop where
  isValid_iff : r.isValid = true ↔ ∃ id ∈ g.ids, g.isValidFor id = true
  value_eq : r.isValid = true → r.value? = some total
  error_eq : r.isValid = false → r.error? = some .noValidContributions
  warnings_eq : r.warnings = g.warnings.eraseDups

theorem values_validOnes (g : Group) : g.validOnes.values = g.values := by
  unfold values entities validOnes
  rw [eraseDups_filter, List.filterMap_filter]
  refine List.filterMap_congr fun id _ => ?_
  show (if g.isValidFor id then (g.result? id).bind (·.value?) else none) = _
  unfold isValidFor Result.isValid
  rcases g.result? id with _ | r
  · rfl
  · cases hvalue : r.value? <;> simp [hvalue]

/-- The sum of the contributions sums up the group. -/
theorem exists_summedUp {g : Group} {total : Decimal}
    (hyields : ∀ id ∈ g.ids, Yields (g.evaluation id))
    (htotal : g.values.foldlM Decimal.add .zero = .ok total) :
    ∃ r, Aggregate.summed g.kind g.contributions = .ok r ∧ g.IsSummedUp total r := by
  refine ⟨_, summed_contributions hyields htotal, ?_⟩
  have hany : g.contributions.any (·.isValid) = true ↔ _ := any_contributions
  cases hvalid : g.contributions.any (·.isValid) with
  | true =>
    rw [hvalid] at hany
    exact ⟨hany, fun _ => rfl, nofun, rfl⟩
  | false =>
    rw [hvalid] at hany
    exact ⟨hany, nofun, fun _ => rfl, rfl⟩

/-- **A group comes to the sum of its valid results**, whatever the limit and
    the order in which evaluations begin and end.  Every entity is evaluated
    once, and what has no valid result can be left out. -/
theorem sum_over_group {g : Group} {total : Decimal} (hids : g.ids ≠ [])
    (hyields : ∀ id ∈ g.ids, Yields (g.evaluation id))
    (htotal : g.values.foldlM Decimal.add .zero = .ok total) :
    ∃ r, (∀ c : g.Course, c.LeadsTo r) ∧ g.IsSummedUp total r ∧
      (r.isValid = true → ∃ r', (∀ c : g.validOnes.Course, c.LeadsTo r') ∧
        r'.isValid = true ∧ r'.value? = r.value?) := by
  obtain ⟨r, hsum, hsummed⟩ := exists_summedUp hyields htotal
  refine ⟨r, fun c => c.leadsTo hids hyields hsum, hsummed, fun hvalid => ?_⟩
  obtain ⟨id, hid, hidvalid⟩ := hsummed.isValid_iff.mp hvalid
  have hmem : id ∈ g.validOnes.ids := List.mem_filter.mpr ⟨hid, hidvalid⟩
  have hyields' : ∀ id ∈ g.validOnes.ids, Yields (g.validOnes.evaluation id) :=
    fun id hid => hyields id (List.mem_of_mem_filter hid)
  rw [← values_validOnes] at htotal
  obtain ⟨r', hsum', hsummed'⟩ := exists_summedUp hyields' htotal
  have hvalid' : r'.isValid = true := hsummed'.isValid_iff.mpr ⟨id, hmem, hidvalid⟩
  exact ⟨r', fun c => c.leadsTo (List.ne_nil_of_mem hmem) hyields' hsum', hvalid',
    (hsummed'.value_eq hvalid').trans (hsummed.value_eq hvalid).symm⟩

/-- Four entities, one of them named twice: a value with a warning, no ledger, a
    division by zero with two warnings, and a value below zero. -/
def mixedGroup : Group where
  kind := .amount
  evaluation
    | "north" => .ok ⟨.value (.finite false 105 (-1)), .amount, [⟨.text "[8]"⟩]⟩
    | "south" => .ok ⟨.invalid .divisionByZero, .amount, [⟨.text "[9]"⟩, ⟨.text "[8]"⟩]⟩
    | "west" => .ok ⟨.value (.finite true 2 0), .amount, []⟩
    | id => .error (.missingLedger (.text id) (.int 2024) .null)
  ids := ["north", "east", "north", "south", "west"]

/-- Two evaluations at a time, and the first to begin is the last to end. -/
def firstEndsLast : mixedGroup.Course where
  limit := some 2
  limit_ne := by decide
  atOnce := fun _ => false
  events :=
    [.take, .take, .take, .take, .finish 1 (mixedGroup.outcome 1), .take, .take,
      .finish 2 (mixedGroup.outcome 2), .take, .take, .finish 3 (mixedGroup.outcome 3), .take,
      .finish 0 (mixedGroup.outcome 0), .take, .take]
  completes := by simp [FanOut.Event.Completes]

/-- Ten and a half less two remain of the four entities, with two warnings. -/
theorem sum_over_group_mixed :
    ∃ r, (∀ c : mixedGroup.Course, c.LeadsTo r) ∧ r.value? = some (.finite false 85 (-1)) ∧
      r.warnings = [⟨.text "[8]"⟩, ⟨.text "[9]"⟩] ∧
      firstEndsLast.state.IsIdle ∧ firstEndsLast.evaluated = ["north", "east", "south", "west"] := by
  have hyields : ∀ id ∈ mixedGroup.ids, Yields (mixedGroup.evaluation id) := by
    simp [mixedGroup, Yields, Result.error?, ErrorKind.text, Failure.isMissingLedger]
  obtain ⟨r, hleads, hsummed, -⟩ := @sum_over_group mixedGroup (.finite false 85 (-1))
    (by simp [mixedGroup]) hyields (by decide +kernel)
  have hvalid : r.isValid = true :=
    hsummed.isValid_iff.mpr ⟨"north", by simp [mixedGroup], by decide +kernel⟩
  refine ⟨r, hleads, hsummed.value_eq hvalid, hsummed.warnings_eq.trans ?_, ?_, ?_⟩
  · decide +kernel
  · exact ⟨rfl, rfl⟩
  · rfl

end Group

end KeyFigures
