/-
  KeyFigures/Proofs/Evaluation/Unmatched.lean
  ===========================================
  **Warnings name the references that match nothing.**

  The reference point is the list of references that the stack walk reads off a
  tree, without any evaluation: of these the ones that match no balance, by their
  bracket texts, each where it comes up first (`unmatchedTexts`).

  A walk that ends with a value has met every reference of its tree, and its
  warnings are that list (`Term.warnings_of_value`).  A walk that ends with a
  division by zero has met the references up to the end of the divisor, no more
  and no less (`Term.warnings_of_division`); which division it is says
  `Term.DividesByZero`, and there is only one.
-/
import KeyFigures.Proofs.Evaluation.Warnings
import KeyFigures.Proofs.Formula.Traversal
import KeyFigures.Proofs.Evaluation.Recorded
import KeyFigures.Proofs.Value.Distinct

namespace KeyFigures

/-! ### References that match nothing -/

namespace AccountReference

/-- Whether the reference can be held against every balance and selects none. -/
def isUnmatched (balances : List AccountBalance) (ref : AccountReference) : Bool :=
  balances.all fun b =>
    match ref.selects b.number with
    | .ok isSelected => !isSelected
    | .error _ => false

/-- The bracket texts of the references that match no balance, each at its first
    occurrence. -/
def unmatchedTexts (balances : List AccountBalance) (refs : List AccountReference) : List String :=
  ((refs.filter (·.isUnmatched balances)).map (·.bracketed)).eraseDups

variable {balances : List AccountBalance} {ref : AccountReference}

theorem isUnmatched_iff : ref.isUnmatched balances = true ↔
    ∀ b ∈ balances, ref.selects b.number = .ok false := by
  unfold isUnmatched
  rw [List.all_eq_true]
  refine forall₂_congr fun b _ => ?_
  cases ref.selects b.number with
  | error f => simp
  | ok isSelected => simp

theorem isUnmatched_cons (b : AccountBalance) :
    ref.isUnmatched (b :: balances) = true ↔
      ref.selects b.number = .ok false ∧ ref.isUnmatched balances = true := by
  simp only [isUnmatched_iff, List.forall_mem_cons]

/-- Of balances that could all be held against the reference, none was counted
    exactly if it selects none. -/
theorem count_of_collect {s s' : Selection} (h : balances.foldlM ref.collect s = .ok s') :
    s'.count = 0 ↔ s.count = 0 ∧ ref.isUnmatched balances = true := by
  induction balances generalizing s with
  | nil =>
    obtain rfl := Except.ok.inj h
    simp [isUnmatched]
  | cons b balances ih =>
    rw [List.foldlM_cons] at h
    obtain ⟨next, hnext, hrest⟩ := Attempt.bind_eq_ok.mp h
    obtain ⟨isSelected, hselects, hnext⟩ := Attempt.bind_eq_ok.mp hnext
    rw [ih hrest, isUnmatched_cons, hselects]
    cases isSelected with
    | false =>
      obtain rfl := Except.ok.inj hnext
      simp
    | true =>
      obtain ⟨total, -, hnext⟩ := Attempt.bind_eq_ok.mp hnext
      obtain rfl := Except.ok.inj hnext
      simp

theorem isEmpty_of_resolve {s : Selection} (h : ref.resolve balances = .ok s) :
    s.isEmpty = ref.isUnmatched balances := by
  have hcount := count_of_collect h
  rw [Bool.eq_iff_iff, Selection.isEmpty, beq_iff_eq, hcount]
  exact and_iff_right rfl

/-! ### Warnings of references -/

/-- The warnings that references leave, before repeats are dropped. -/
def warningsOf (balances : List AccountBalance) (refs : List AccountReference) : List Warning :=
  (refs.filter (·.isUnmatched balances)).map fun ref => ⟨.text ref.bracketed⟩

theorem warningsOf_append (refs more : List AccountReference) :
    warningsOf balances (refs ++ more) = warningsOf balances refs ++ warningsOf balances more := by
  unfold warningsOf
  rw [List.filter_append, List.map_append]

end AccountReference

open AccountReference (warningsOf unmatchedTexts warningsOf_append)

/-! ### Walks in two steps -/

namespace Walk

variable {α β : Type} {m : Walk α} {next : α → Walk β} {ws ws' : List Warning}

/-- A walk in two steps yields something only if both steps do. -/
theorem run_bind_eq_ok {b : β} (h : (m >>= next).run ws = (.ok b, ws')) :
    ∃ a ws₁, m.run ws = (.ok a, ws₁) ∧ (next a).run ws₁ = (.ok b, ws') := by
  rw [Term.run_bind] at h
  revert h
  rcases m.run ws with ⟨stop | a, ws₁⟩ <;> intro h
  · cases h
  · exact ⟨a, ws₁, rfl, h⟩

/-- A walk in two steps stops in the first step or in the second one. -/
theorem run_bind_eq_error {stop : Stop} (h : (m >>= next).run ws = (.error stop, ws')) :
    m.run ws = (.error stop, ws') ∨
      ∃ a ws₁, m.run ws = (.ok a, ws₁) ∧ (next a).run ws₁ = (.error stop, ws') := by
  rw [Term.run_bind] at h
  revert h
  rcases m.run ws with ⟨stop' | a, ws₁⟩ <;> intro h
  · exact .inl (by cases h; rfl)
  · exact .inr ⟨a, ws₁, rfl, h⟩

/-- After a first step that yields something the walk goes on with it. -/
theorem run_bind_fst_of_ok {a : α} {outcome : Except Stop β} (h : (m.run ws).1 = .ok a)
    (hnext : ∀ ws, ((next a).run ws).1 = outcome) : ((m >>= next).run ws).1 = outcome := by
  rw [Term.run_bind]
  revert h
  rcases m.run ws with ⟨stop | a', ws₁⟩ <;> intro h
  · cases h
  · obtain rfl := Except.ok.inj h
    exact hnext ws₁

/-- After a first step that stops the walk is over. -/
theorem run_bind_fst_of_error {stop : Stop} (h : (m.run ws).1 = .error stop) :
    ((m >>= next).run ws).1 = .error stop := by
  rw [Term.run_bind]
  revert h
  rcases m.run ws with ⟨stop' | a, ws₁⟩ <;> intro h
  · obtain rfl := Except.error.inj h
    rfl
  · cases h

end Walk

/-- Only dividing by zero stops a walk as a division by zero. -/
theorem Operator.apply_eq_divisionByZero {op : Operator} {x y : Decimal}
    (h : op.apply x y = .error .divisionByZero) :
    op = .div ∧ y.equalValue .zero = .ok true := by
  have computed : ∀ r : Except Decimal.Fault Decimal,
      (r.mapError fun fault => Stop.failed (.number fault)) ≠ .error .divisionByZero := by
    intro r hr
    cases r <;> cases hr
  cases op with
  | add => exact absurd h (computed _)
  | sub => exact absurd h (computed _)
  | mul => exact absurd h (computed _)
  | div =>
    refine ⟨rfl, ?_⟩
    unfold Operator.apply at h
    dsimp only at h
    revert h
    rcases y.equalValue .zero with fault | isZero <;> intro h
    · cases h
    · cases isZero with
      | true => rfl
      | false => exact absurd h (computed _)

namespace Warning

theorem merge_append (ws own more : List Warning) :
    merge ws (own ++ more) = merge (merge ws own) more :=
  List.foldl_append

/-- Among warnings of texts there is one of a text exactly if the text is among
    them. -/
theorem any_same_text (texts : List String) (s : String) :
    ((texts.map fun x => (⟨.text x⟩ : Warning)).any fun w => w.reference.same (.text s)) =
      texts.contains s := by
  rw [List.any_map, Bool.eq_iff_iff, List.any_eq_true, List.contains_iff_mem]
  constructor
  · rintro ⟨x, hx, hsame⟩
    obtain rfl : x = s := Value.text.inj (Value.same_text_iff.mp hsame)
    exact hx
  · exact fun hs => ⟨s, hs, Value.same_self _⟩

/-- Warnings of texts are kept once for each text, at its first occurrence. -/
theorem merge_texts (texts : List String) :
    merge [] (texts.map fun s => ⟨.text s⟩) = texts.eraseDups.map fun s => ⟨.text s⟩ := by
  induction texts using List.reverseRecOn with
  | nil => rfl
  | append_singleton texts s ih =>
    have hkept : texts.eraseDups.contains s = texts.contains s := by
      rw [Bool.eq_iff_iff, List.contains_iff_mem, List.contains_iff_mem, List.mem_eraseDups]
    rw [List.map_append, merge_append, ih, eraseDups_concat]
    show insert (texts.eraseDups.map fun x => ⟨.text x⟩) ⟨.text s⟩ = _
    unfold insert
    rw [any_same_text, hkept]
    split
    · rfl
    · rw [List.map_append, List.map_cons, List.map_nil]

/-- So merging drops the repeats of warnings of texts. -/
theorem merge_eq_eraseDups {ws : List Warning} (h : ∀ w ∈ ws, ∃ s, w.reference = .text s) :
    merge [] ws = ws.eraseDups := by
  have hinjective : Function.Injective fun s : String => (⟨.text s⟩ : Warning) :=
    fun s s' hs => Value.text.inj (Warning.mk.inj hs)
  obtain ⟨texts, rfl⟩ : ∃ texts : List String, ws = texts.map fun s => ⟨.text s⟩ := by
    induction ws with
    | nil => exact ⟨[], rfl⟩
    | cons w ws ih =>
      obtain ⟨⟨s, hs⟩, hws⟩ := List.forall_mem_cons.mp h
      obtain ⟨texts, htexts⟩ := ih hws
      exact ⟨s :: texts, by rw [List.map_cons, ← hs, ← htexts]⟩
  rw [merge_texts, eraseDups_map hinjective]

end Warning

theorem AccountReference.merge_warningsOf (balances : List AccountBalance)
    (refs : List AccountReference) :
    Warning.merge [] (warningsOf balances refs) =
      (unmatchedTexts balances refs).map fun s => ⟨.text s⟩ := by
  unfold warningsOf unmatchedTexts
  rw [← Warning.merge_texts, List.map_map]
  rfl

/-- What comes first in a list comes first in the list without repeats. -/
theorem AccountReference.unmatchedTexts_prefix {balances : List AccountBalance}
    {refs more : List AccountReference} (h : refs <+: more) :
    unmatchedTexts balances refs <+: unmatchedTexts balances more := by
  obtain ⟨rest, rfl⟩ := h
  unfold unmatchedTexts
  rw [List.filter_append, List.map_append, List.eraseDups_append]
  exact List.prefix_append _ _

namespace Term

/-! ### The division that fails -/

/-- The tree has that value, evaluated by itself. -/
def HasValue (balances : List AccountBalance) (t : Term) (d : Decimal) : Prop :=
  ((t.value balances).run []).1 = .ok d

/-- A division by a divisor of value zero, with a value for everything that comes
    before it: the references before the divisor, from left to right, and the
    divisor. -/
inductive DividesByZero (balances : List AccountBalance) :
    Term → List AccountReference → Term → Prop
  | here {dividend divisor : Term} {x y : Decimal} (hx : dividend.HasValue balances x)
      (hy : divisor.HasValue balances y) (hzero : y.equalValue .zero = .ok true) :
      DividesByZero balances (binary dividend .div divisor) dividend.accountReferences divisor
  | grouping {inner divisor : Term} {before : List AccountReference}
      (h : DividesByZero balances inner before divisor) :
      DividesByZero balances (grouping inner) before divisor
  | left {left right divisor : Term} {op : Operator} {before : List AccountReference}
      (h : DividesByZero balances left before divisor) :
      DividesByZero balances (binary left op right) before divisor
  | right {left right divisor : Term} {op : Operator} {before : List AccountReference} {x : Decimal}
      (hx : left.HasValue balances x) (h : DividesByZero balances right before divisor) :
      DividesByZero balances (binary left op right) (left.accountReferences ++ before) divisor
  | leftUnsupported {left right divisor : Term} {symbol : Value} {before : List AccountReference}
      (h : DividesByZero balances left before divisor) :
      DividesByZero balances (unsupported left symbol right) before divisor
  | rightUnsupported {left right divisor : Term} {symbol : Value} {before : List AccountReference}
      {x : Decimal} (hx : left.HasValue balances x)
      (h : DividesByZero balances right before divisor) :
      DividesByZero balances (unsupported left symbol right) (left.accountReferences ++ before)
        divisor

variable {balances : List AccountBalance} {t : Term} {ws ws' : List Warning}

/-- The references up to the end of the divisor come first in the tree. -/
theorem DividesByZero.isPrefix {before : List AccountReference} {divisor : Term}
    (h : t.DividesByZero balances before divisor) :
    before ++ divisor.accountReferences <+: t.accountReferences := by
  induction h with
  | here => rw [accountReferences_binary]
  | grouping _ ih => rwa [accountReferences_grouping]
  | left _ ih =>
    rw [accountReferences_binary]
    exact ih.trans (List.prefix_append _ _)
  | right _ _ ih =>
    rw [accountReferences_binary, List.append_assoc]
    exact (List.prefix_append_right_inj _).mpr ih
  | leftUnsupported _ ih =>
    rw [accountReferences_unsupported]
    exact ih.trans (List.prefix_append _ _)
  | rightUnsupported _ _ ih =>
    rw [accountReferences_unsupported, List.append_assoc]
    exact (List.prefix_append_right_inj _).mpr ih

/-! ### The walk -/

/-- A reference comes to the sum of what it selects, and leaves a warning if that
    is nothing. -/
theorem run_account (ref : AccountReference) (balances : List AccountBalance) (ws : List Warning) :
    ((account ref).value balances).run ws =
      match ref.resolve balances with
      | .ok selection => (.ok selection.total, Warning.merge ws (warningsOf balances [ref]))
      | .error f => (.error (.failed f), ws) := by
  rw [value, AccountReference.value, run_bind]
  cases hresolve : ref.resolve balances with
  | error f => rfl
  | ok selection =>
    have hempty := AccountReference.isEmpty_of_resolve hresolve
    show ExceptT.run (m := StateM (List Warning)) (do
      if selection.isEmpty then modify fun ws => Warning.insert ws ⟨.text ref.bracketed⟩
      return selection.total : Walk Decimal) ws = _
    cases hunmatched : ref.isUnmatched balances with
    | false =>
      rw [hempty.trans hunmatched, warningsOf, List.filter_cons_of_neg (by simp [hunmatched])]
      rfl
    | true =>
      rw [hempty.trans hunmatched, warningsOf, List.filter_cons_of_pos hunmatched]
      rfl

/-- What a walk through a tree comes to is the same after any warnings. -/
theorem run_fst (t : Term) (balances : List AccountBalance) (ws : List Warning) :
    ((t.value balances).run ws).1 = ((t.value balances).run []).1 := by
  rw [t.isApart_value balances ws]

theorem HasValue.run_fst {d : Decimal} (h : t.HasValue balances d) (ws : List Warning) :
    ((t.value balances).run ws).1 = .ok d :=
  (t.run_fst balances ws).trans h

theorem hasValue_of_run {d : Decimal} (h : (t.value balances).run ws = (.ok d, ws')) :
    t.HasValue balances d := by
  rw [HasValue, ← t.run_fst balances ws, h]

/-- **A walk that ends with a value has left the warnings of all references.** -/
theorem warnings_of_value {d : Decimal} (h : (t.value balances).run ws = (.ok d, ws')) :
    ws' = Warning.merge ws (warningsOf balances t.accountReferences) := by
  induction t generalizing ws ws' d with
  | account ref =>
    rw [run_account] at h
    rw [accountReferences_account]
    revert h
    rcases ref.resolve balances with f | selection <;> intro h
    · cases h
    · exact (Prod.mk.inj h).2.symm
  | constant value =>
    rw [accountReferences_constant]
    exact (Prod.mk.inj h).2.symm
  | grouping inner ih =>
    rw [accountReferences_grouping]
    exact ih h
  | binary left op right ihl ihr =>
    obtain ⟨x, ws₁, hl, h⟩ := Walk.run_bind_eq_ok h
    obtain ⟨y, ws₂, hr, h⟩ := Walk.run_bind_eq_ok h
    obtain rfl : ws₂ = ws' := (Prod.mk.inj h).2
    rw [ihr hr, ihl hl, accountReferences_binary, warningsOf_append, Warning.merge_append]
  | formula id => cases h
  | unsupported left symbol right =>
    -- The walk refuses the symbol when it has both values.
    obtain ⟨x, ws₁, -, h⟩ := Walk.run_bind_eq_ok h
    obtain ⟨y, ws₂, -, h⟩ := Walk.run_bind_eq_ok h
    cases h
  | foreign thing => cases h

/-- **A walk that ends with a division by zero has left the warnings of the
    references up to the end of the divisor.** -/
theorem warnings_of_division
    (h : (t.value balances).run ws = (.error .divisionByZero, ws')) :
    ∃ before divisor, t.DividesByZero balances before divisor ∧
      ws' = Warning.merge ws (warningsOf balances (before ++ divisor.accountReferences)) := by
  induction t generalizing ws ws' with
  | account ref =>
    rw [run_account] at h
    revert h
    rcases ref.resolve balances with f | selection <;> intro h <;> cases h
  | constant value => cases h
  | grouping inner ih =>
    obtain ⟨before, divisor, hdivides, hws⟩ := ih h
    exact ⟨before, divisor, .grouping hdivides, hws⟩
  | binary left op right ihl ihr =>
    rcases Walk.run_bind_eq_error h with hl | ⟨x, ws₁, hl, h⟩
    · obtain ⟨before, divisor, hdivides, hws⟩ := ihl hl
      exact ⟨before, divisor, .left hdivides, hws⟩
    obtain rfl := warnings_of_value hl
    rcases Walk.run_bind_eq_error h with hr | ⟨y, ws₂, hr, h⟩
    · obtain ⟨before, divisor, hdivides, hws⟩ := ihr hr
      refine ⟨_, divisor, .right (hasValue_of_run hl) hdivides, ?_⟩
      rw [hws, List.append_assoc, warningsOf_append left.accountReferences, Warning.merge_append]
    · obtain rfl := warnings_of_value hr
      obtain ⟨hstop, rfl⟩ := Prod.mk.inj h
      obtain ⟨rfl, hzero⟩ := Operator.apply_eq_divisionByZero hstop
      refine ⟨_, right, .here (hasValue_of_run hl) (hasValue_of_run hr) hzero, ?_⟩
      rw [warningsOf_append, Warning.merge_append]
  | formula id => cases h
  | unsupported left symbol right ihl ihr =>
    rcases Walk.run_bind_eq_error h with hl | ⟨x, ws₁, hl, h⟩
    · obtain ⟨before, divisor, hdivides, hws⟩ := ihl hl
      exact ⟨before, divisor, .leftUnsupported hdivides, hws⟩
    obtain rfl := warnings_of_value hl
    rcases Walk.run_bind_eq_error h with hr | ⟨y, ws₂, hr, h⟩
    · obtain ⟨before, divisor, hdivides, hws⟩ := ihr hr
      refine ⟨_, divisor, .rightUnsupported (hasValue_of_run hl) hdivides, ?_⟩
      rw [hws, List.append_assoc, warningsOf_append left.accountReferences, Warning.merge_append]
    · cases h
  | foreign thing => cases h

/-! ### One division that fails -/

namespace DividesByZero

variable {before before' : List AccountReference} {divisor divisor' : Term}

/-- A walk through a tree that divides by zero stops there. -/
theorem stops (h : t.DividesByZero balances before divisor) (ws : List Warning) :
    ((t.value balances).run ws).1 = .error .divisionByZero := by
  induction h generalizing ws with
  | here hx hy hzero =>
    refine Walk.run_bind_fst_of_ok (hx.run_fst ws) fun ws => ?_
    refine Walk.run_bind_fst_of_ok (hy.run_fst ws) fun ws => ?_
    show Operator.apply .div _ _ = _
    unfold Operator.apply
    dsimp only
    rw [hzero]
  | grouping _ ih => exact ih ws
  | left _ ih => exact Walk.run_bind_fst_of_error (ih ws)
  | right hx _ ih =>
    exact Walk.run_bind_fst_of_ok (hx.run_fst ws) fun ws => Walk.run_bind_fst_of_error (ih ws)
  | leftUnsupported _ ih => exact Walk.run_bind_fst_of_error (ih ws)
  | rightUnsupported hx _ ih =>
    exact Walk.run_bind_fst_of_ok (hx.run_fst ws) fun ws => Walk.run_bind_fst_of_error (ih ws)

theorem not_hasValue (h : t.DividesByZero balances before divisor) (d : Decimal) :
    ¬t.HasValue balances d := by
  intro hd
  cases (h.stops []).symm.trans hd

/-- **At most one division fails.** -/
theorem unique (h : t.DividesByZero balances before divisor)
    (h' : t.DividesByZero balances before' divisor') : before = before' ∧ divisor = divisor' := by
  induction h generalizing before' divisor' with
  | here hx hy =>
    cases h' with
    | here => exact ⟨rfl, rfl⟩
    | left h' => exact absurd hx (h'.not_hasValue _)
    | right _ h' => exact absurd hy (h'.not_hasValue _)
  | grouping _ ih =>
    cases h' with
    | grouping h' => exact ih h'
  | left h ih =>
    cases h' with
    | here hx => exact absurd hx (h.not_hasValue _)
    | left h' => exact ih h'
    | right hx => exact absurd hx (h.not_hasValue _)
  | right hx h ih =>
    cases h' with
    | here _ hy => exact absurd hy (h.not_hasValue _)
    | left h' => exact absurd hx (h'.not_hasValue _)
    | right _ h' =>
      obtain ⟨rfl, rfl⟩ := ih h'
      exact ⟨rfl, rfl⟩
  | leftUnsupported h ih =>
    cases h' with
    | leftUnsupported h' => exact ih h'
    | rightUnsupported hx => exact absurd hx (h.not_hasValue _)
  | rightUnsupported hx h ih =>
    cases h' with
    | leftUnsupported h' => exact absurd hx (h'.not_hasValue _)
    | rightUnsupported _ h' =>
      obtain ⟨rfl, rfl⟩ := ih h'
      exact ⟨rfl, rfl⟩

end DividesByZero

/-! ### The warnings of a result -/

variable {kind : ResultKind} {r : Result}

theorem warnings_of_result_valid (h : t.result balances kind = .ok r) (hvalid : r.isValid = true) :
    r.warnings = (unmatchedTexts balances t.accountReferences).map fun s => ⟨.text s⟩ := by
  rw [← AccountReference.merge_warningsOf]
  unfold result at h
  split at h
  case h_1 d ws hrun =>
    obtain rfl := Except.ok.inj h
    exact warnings_of_value hrun
  case h_2 ws hrun =>
    obtain rfl := Except.ok.inj h
    cases hvalid
  case h_3 => cases h

theorem warnings_of_result_division (h : t.result balances kind = .ok r)
    (herror : r.error? = some .divisionByZero) :
    ∃ before divisor, t.DividesByZero balances before divisor ∧
      r.warnings = (unmatchedTexts balances (before ++ divisor.accountReferences)).map
        fun s => ⟨.text s⟩ := by
  unfold result at h
  split at h
  case h_1 d ws hrun =>
    obtain rfl := Except.ok.inj h
    cases herror
  case h_2 ws hrun =>
    obtain rfl := Except.ok.inj h
    obtain ⟨before, divisor, hdivides, hws⟩ := warnings_of_division hrun
    refine ⟨before, divisor, hdivides, ?_⟩
    rw [← AccountReference.merge_warningsOf]
    exact hws
  case h_3 => cases h

end Term

/-! ### The warnings of an evaluation -/

/-- Recording does not change what an evaluation yields. -/
theorem result_of_evaluate {t : Term} {balances : List AccountBalance} {kind : ResultKind}
    {j : Log.Journal} {r : Result} (h : ((evaluate t balances kind).play j).1 = .ok r) :
    t.result balances kind = .ok r := by
  rw [fst_play_evaluate] at h
  split at h
  · obtain ⟨fingerprint, -, hresult⟩ := Attempt.bind_eq_ok.mp h
    exact hresult
  · exact h

/-- **Warnings name exactly the references that match nothing.**  A valid result
    warns of all of them, in the order of the tree and once for each bracket
    text; a division by zero warns of those up to the end of the divisor. -/
theorem warnings_of_evaluate {t : Term} {balances : List AccountBalance} {kind : ResultKind}
    {j : Log.Journal} {r : Result} (h : ((evaluate t balances kind).play j).1 = .ok r) :
    (r.isValid = true →
      r.warnings = (unmatchedTexts balances t.accountReferences).map fun s => ⟨.text s⟩) ∧
    (r.error? = some .divisionByZero →
      (∃ before divisor, t.DividesByZero balances before divisor) ∧
      ∀ before divisor, t.DividesByZero balances before divisor →
        before ++ divisor.accountReferences <+: t.accountReferences ∧
        (r.warnings = (unmatchedTexts balances (before ++ divisor.accountReferences)).map
          fun s => ⟨.text s⟩) ∧
        r.warnings <+: (unmatchedTexts balances t.accountReferences).map fun s => ⟨.text s⟩) := by
  have hresult := result_of_evaluate h
  refine ⟨Term.warnings_of_result_valid hresult, fun herror => ?_⟩
  obtain ⟨before, divisor, hdivides, hwarnings⟩ := Term.warnings_of_result_division hresult herror
  refine ⟨⟨before, divisor, hdivides⟩, fun before' divisor' hdivides' => ?_⟩
  obtain ⟨rfl, rfl⟩ := hdivides.unique hdivides'
  refine ⟨hdivides.isPrefix, hwarnings, ?_⟩
  rw [hwarnings]
  exact (AccountReference.unmatchedTexts_prefix hdivides.isPrefix).map _

/-- A part of a whole, with an account behind the division that nobody looks at. -/
def shareAndRest : Term :=
  .binary
    (.binary (.account (.starting (.text "7")))
      .div (.binary (.account (.starting (.text "8"))) .add (.account (.starting (.text "7")))))
    .add (.account (.starting (.text "9")))

/-- Without accounts the division fails, and the account behind it is not among
    the warnings; with one account for each reference all is well. -/
theorem warnings_of_evaluate_shareAndRest :
    ∃ r r', ((evaluate shareAndRest [] .amount).play {}).1 = .ok r ∧
      ((evaluate shareAndRest
        [⟨"70", .finite false 1 0⟩, ⟨"90", .finite false 2 0⟩] .amount).play {}).1 = .ok r' ∧
      r.warnings = [⟨.text "[7]"⟩, ⟨.text "[8]"⟩] ∧
      (∃ before divisor, shareAndRest.DividesByZero [] before divisor) ∧
      r'.warnings = [⟨.text "[8]"⟩] := by
  have hfails : ((evaluate shareAndRest [] .amount).play {}).1 =
      .ok ⟨.invalid .divisionByZero, .amount, [⟨.text "[7]"⟩, ⟨.text "[8]"⟩]⟩ := by
    rfl
  have hvalid : ((evaluate shareAndRest
      [⟨"70", .finite false 1 0⟩, ⟨"90", .finite false 2 0⟩] .amount).play {}).1 =
      .ok ⟨.value (.finite false 3 0), .amount, [⟨.text "[8]"⟩]⟩ := by
    decide +kernel
  refine ⟨_, _, hfails, hvalid, rfl, ((warnings_of_evaluate hfails).2 rfl).1, ?_⟩
  rw [(warnings_of_evaluate hvalid).1 rfl]
  decide +kernel

end KeyFigures
