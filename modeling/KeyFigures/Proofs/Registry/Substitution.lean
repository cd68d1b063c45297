/-
  KeyFigures/Proofs/Registry/Substitution.lean
  ============================================
  **Replacing references keeps what a formula means.**

  The reference point is a walk through the tree as it was written, in which a
  reference stands for the walk through its own formula (`Registry.standing`):
  that formula is evaluated by itself, its value is what the reference
  contributes, a division by zero in it ends the whole walk, and its warnings
  join those that were met before.

  Two facts bring the expanded tree to that walk.  What a walk adds to the
  warnings does not depend on the warnings it starts with (`Term.value_apart`),
  so a formula that is walked through in the middle of another one leaves what
  it leaves by itself.  And an expanded tree has at each reference the tree that
  the reference resolves to, in parentheses (`Registry.value_of_expands`).
-/
import KeyFigures.Proofs.Evaluation.Warnings
import KeyFigures.Proofs.Registry.Resolution

namespace KeyFigures

/-- The result of a walk that starts without warnings. -/
def Walk.result (m : Walk Decimal) (kind : ResultKind) : Attempt Result :=
  match m.run [] with
  | (.ok d, warnings) => .ok ⟨.value d, kind, warnings⟩
  | (.error .divisionByZero, warnings) => .ok ⟨.invalid .divisionByZero, kind, warnings⟩
  | (.error (.failed cause), _) => .error cause

namespace Term

/-! ### Trees with references that mean something -/

/-- The walk through a tree in which a formula reference stands for a walk. -/
def valueWith (standing : Value → Walk Decimal) (balances : List AccountBalance) :
    Term → Walk Decimal
  | .account ref => ref.value balances
  | .constant value => pure value
  | .grouping inner => inner.valueWith standing balances
  | .binary left op right => do
    let x ← left.valueWith standing balances
    let y ← right.valueWith standing balances
    ExceptT.mk (pure (op.apply x y))
  | .formula id => standing id
  | .unsupported left symbol right => do
    let _ ← left.valueWith standing balances
    let _ ← right.valueWith standing balances
    throw (.failed (.value (.unsupportedOperator symbol.shown)))
  | .foreign thing => throw (.failed (.misuse (.notATerm thing.shown)))

/-- Where a reference means nothing, the walk is that of an evaluation. -/
theorem valueWith_unresolved (balances : List AccountBalance) (t : Term) :
    t.valueWith (fun id => throw (.failed (.unresolvedReference id))) balances =
      t.value balances := by
  induction t with
  | grouping inner ih => exact ih
  | binary left op right ihl ihr => simp only [valueWith, value, ihl, ihr]
  | unsupported left symbol right ihl ihr => simp only [valueWith, value, ihl, ihr]
  | account | constant | formula | foreign => rfl

end Term

namespace Registry

/-- What a formula reference stands for on a ledger: the walk through the tree
    that the id resolves to, made apart. -/
def standing (r : Registry) (balances : List AccountBalance) (id : Value) :
    KeyFigures.Walk Decimal := do
  let body ← KeyFigures.Walk.attempt (r.resolveId id)
  (body.value balances).apart

variable {r : Registry}

theorem standing_of_resolveId (balances : List AccountBalance) {id : Value} {body : Term}
    (h : r.resolveId id = .ok body) : r.standing balances id = body.value balances := by
  have hstanding : r.standing balances id = (body.value balances).apart := by
    unfold standing
    rw [h]
    rfl
  rw [hstanding, body.value_apart]

/-- By itself a reference has the result of the formula that it names. -/
theorem result_standing (balances : List AccountBalance) {id : Value} {body : Term}
    (h : r.resolveId id = .ok body) (kind : ResultKind) :
    (r.standing balances id).result kind = body.result balances kind := by
  rw [standing_of_resolveId balances h]
  rfl

/-! ### The expanded tree -/

/-- An expanded tree is walked through like the tree it was made from, if every
    reference stands for the walk through what it expands to. -/
theorem value_of_expands {bodyOf : Value → Attempt Term}
    {standing : Value → KeyFigures.Walk Decimal} {balances : List AccountBalance} {t : Term} {e : Expanded} (h : Expands bodyOf t e)
    (hstanding : ∀ id ∈ t.formulaReferences, ∀ i, Expands bodyOf (.formula id) i →
      standing id = i.tree.value balances) :
    e.tree.value balances = t.valueWith standing balances := by
  induction h with
  | formula hbody hinner _ => exact (hstanding _ (by simp) _ (.formula hbody hinner)).symm
  | binary op _ _ ihl ihr =>
    have hl := ihl fun id hid => hstanding id (by simp [hid])
    have hr := ihr fun id hid => hstanding id (by simp [hid])
    simp only [Term.value, Term.valueWith, hl, hr]
  | unsupported symbol _ _ ihl ihr =>
    have hl := ihl fun id hid => hstanding id (by simp [hid])
    have hr := ihr fun id hid => hstanding id (by simp [hid])
    simp only [Term.value, Term.valueWith, hl, hr]
  | grouping _ ih => exact ih fun id hid => hstanding id (by simpa using hid)
  | account | constant | foreign => rfl

/-- An id that resolves comes to the tree that a reference to it expands to. -/
theorem tree_of_resolveId {bound : Int} (hbound : r.Bounded bound)
    (hstandard : ∀ d ∈ r.standard, r.TellsApart d.tree) {id : Value} {body : Term}
    (h : r.resolveId id = .ok body) {e : Expanded}
    (he : Expands (r.bodyOf none) (.formula id) e) : e.tree = .grouping body := by
  obtain ⟨d, hd, hexpand⟩ := resolveId_eq_ok_iff.mp h
  obtain ⟨inner, memo, hfinished, rfl⟩ :=
    exists_finished_of_expand hbound.most_eq (unambiguous_of_definition hstandard hd) hexpand
  have hid : Expands (r.bodyOf none) (.formula id) ⟨.grouping inner.tree, inner.height + 1⟩ :=
    .formula (bodyOf_eq_ok_iff.mpr ⟨d, hd, rfl⟩) hfinished.expands
  rw [he.unique hid]

/-- **Expansion keeps the meaning.**  Whenever a formula text resolves, so does
    each of its references by itself, and on every ledger the expanded tree has
    the result, or the failure, of the walk through the text's own tree in
    which each reference stands for the formula that it names. -/
theorem resolveSource_keeps_meaning {standard : List Definition} {user : Option UserStore}
    {bound : Int} (hmake : make standard user (.int bound) = .ok r)
    (hstandard : ∀ d ∈ standard, r.TellsApart d.tree) {s : String} {tree : Term}
    (h : r.resolveSource (.text s) = .ok tree) :
    ∃ t, parseText s = .ok t ∧
      (∀ id ∈ t.formulaReferences, ∃ body, r.resolveId id = .ok body ∧
        ∀ balances kind, (r.standing balances id).result kind = body.result balances kind) ∧
      ∀ balances kind, tree.result balances kind =
        (t.valueWith (r.standing balances) balances).result kind := by
  have hbound : r.Bounded bound := bounded_of_make hmake
  have hstandard' : ∀ d ∈ r.standard, r.TellsApart d.tree := by
    obtain ⟨-, rfl⟩ := make_int hmake
    exact hstandard
  obtain ⟨t, hparse, hexpand⟩ := Attempt.bind_eq_ok.mp h
  have hapart : r.TellsApart t := .inr (refersByText_of_parseText hparse)
  have hu : Unambiguous (r.bodyOf none) t := hapart.unambiguous hstandard' (by simp)
  have hresolves : ∀ id ∈ t.formulaReferences, ∃ body, r.resolveId id = .ok body := by
    intro id hid
    refine (exists_resolveId_iff hbound hstandard' id).mpr ?_
    exact (exists_resolveSource_iff hbound hstandard' hparse hapart).mp ⟨tree, h⟩ id hid
  obtain ⟨e, memo, hfinished, rfl⟩ := exists_finished_of_expand hbound.most_eq hu hexpand
  refine ⟨t, hparse, fun id hid => ?_, fun balances kind => ?_⟩
  · obtain ⟨body, hbody⟩ := hresolves id hid
    exact ⟨body, hbody, fun balances kind => result_standing balances hbody kind⟩
  · have hvalue : e.tree.value balances = t.valueWith (r.standing balances) balances := by
      refine value_of_expands hfinished.expands fun id hid i hi => ?_
      obtain ⟨body, hbody⟩ := hresolves id hid
      rw [standing_of_resolveId balances hbody, tree_of_resolveId hbound hstandard' hbody hi]
      rfl
    rw [← hvalue]
    rfl

/-- A sum, and a quotient that uses it. -/
def sumAndShare : List Definition := [
  .ofTree "sum"
    (.binary (.account (.starting (.text "1"))) .add (.account (.starting (.text "2")))),
  .ofTree "share" (.binary (.formula (.text "sum")) .div (.account (.starting (.text "3"))))]

/-- The sum is doubled as a whole, and the division in the other formula may
    stop the walk. -/
theorem resolveSource_keeps_meaning_sumAndShare :
    ∃ r tree t, make sumAndShare none (.int 2) = .ok r ∧
      r.resolveSource (.text "2 * \x7bsum\x7d - \x7bshare\x7d") = .ok tree ∧
      parseText "2 * \x7bsum\x7d - \x7bshare\x7d" = .ok t ∧
      (∀ id ∈ t.formulaReferences, ∃ body, r.resolveId id = .ok body ∧
        ∀ balances kind, (r.standing balances id).result kind = body.result balances kind) ∧
      ∀ balances kind, tree.result balances kind =
        (t.valueWith (r.standing balances) balances).result kind := by
  have hmake : make sumAndShare none (.int 2) = .ok ⟨sumAndShare, none, .whole 2⟩ :=
    make_of_pos (by decide) _ _
  have hmemory : InMemory ⟨sumAndShare, none, .whole 2⟩ := inMemory_of_make hmake (by simp)
  have hresolve : resolveSource ⟨sumAndShare, none, .whole 2⟩
      (.text "2 * \x7bsum\x7d - \x7bshare\x7d") =
      .ok (.binary
        (.binary (.constant (.finite false 2 0)) .mul
          (.grouping (.binary (.account (.starting (.text "1"))) .add
            (.account (.starting (.text "2"))))))
        .sub
        (.grouping (.binary
          (.grouping (.binary (.account (.starting (.text "1"))) .add
            (.account (.starting (.text "2")))))
          .div (.account (.starting (.text "3")))))) := by
    cbv
  obtain ⟨t, ht, hrefs, hresult⟩ :=
    resolveSource_keeps_meaning hmake (fun _ _ => .inl hmemory) hresolve
  exact ⟨_, _, t, hmake, hresolve, ht, hrefs, hresult⟩

end Registry

end KeyFigures
