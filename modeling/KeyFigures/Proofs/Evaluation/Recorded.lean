/-
  KeyFigures/Proofs/Evaluation/Recorded.lean
  ==========================================
  **Evaluating with a journal at hand.**

  What an evaluation records never fails, so an evaluation comes to the result
  of its tree in every journal (`fst_play_evaluate`).  There is one exception:
  while details are recorded the inputs are fingerprinted first, and an
  evaluation whose inputs have no fingerprint fails with that.  The fingerprint
  is taken of the tree as data, so it fails as the first leaf of the tree that
  has no canonical text (`failure?_evaluationFingerprint`).
-/
import KeyFigures.Proofs.Formula.Identity
import KeyFigures.Proofs.Log.Steady
import KeyFigures.Proofs.Value.Writing

namespace KeyFigures

open Log (Journal)
open Log.Recorded (fst_play_bind fst_play_event play_attempt)

/-! ### Fingerprints -/

/-- The inputs of an evaluation have a fingerprint. -/
def Term.IsTraceable (t : Term) (kind : ResultKind) : Prop :=
  ∃ fingerprint, evaluationFingerprint t kind = .ok fingerprint

/-- The data at the leaves of a tree in the order in which it is written, which
    of a range is the last account first. -/
def Term.leaves : Term → List Value
  | .account (.starting code) => [code]
  | .account (.between first last) => [last, first]
  | .constant value => [.decimal value]
  | .formula id => [id]
  | .grouping inner => inner.leaves
  | .binary left _ right => left.leaves ++ right.leaves
  | .unsupported left _ right => left.leaves ++ right.leaves
  | .foreign _ => []

/-- How the first leaf that cannot be written fails, if there is one. -/
def Term.unwritable? (t : Term) : Option Failure := t.leaves.findSome? Value.unwritable?

theorem Term.unwritable?_binary (left : Term) (op : Operator) (right : Term) :
    (Term.binary left op right).unwritable? = left.unwritable?.or right.unwritable? :=
  List.findSome?_append

theorem Term.unwritable?_grouping (inner : Term) :
    (Term.grouping inner).unwritable? = inner.unwritable? := rfl

/-- A tree of formula nodes can be put as data, and that is written unless a
    leaf cannot be. -/
theorem Term.exists_payload {t : Term} (ht : t.WellFormed) :
    ∃ v, t.payload = .ok v ∧ v.unwritable? = t.unwritable? := by
  -- the members of a node come in the order of their names
  have hsorted : ∀ members sorted : List (String × Value), Value.sortMembers members = sorted →
      (Value.object members).unwritable? = sorted.findSome? fun m => m.2.unwritable? := by
    rintro members _ rfl
    exact Value.unwritable?_object members
  induction t with
  | account ref =>
    cases ref with
    | starting code =>
      refine ⟨_, rfl, ?_⟩
      rw [hsorted _ [("code", code), ("t", .text "ref")] (by cbv)]
      simp [unwritable?, leaves, findSome?_cons_or]
    | between first last =>
      refine ⟨_, rfl, ?_⟩
      rw [hsorted _ [("end", last), ("start", first), ("t", .text "range")] (by cbv)]
      simp [unwritable?, leaves, findSome?_cons_or]
  | constant value =>
    refine ⟨_, rfl, ?_⟩
    rw [hsorted _ [("t", .text "const"), ("value", .decimal value)] (by cbv)]
    simp [unwritable?, leaves, findSome?_cons_or]
  | formula id =>
    refine ⟨_, rfl, ?_⟩
    rw [hsorted _ [("id", id), ("t", .text "formula")] (by cbv)]
    simp [unwritable?, leaves, findSome?_cons_or]
  | grouping inner ih =>
    obtain ⟨v, hv, hw⟩ := ih ht
    refine ⟨_, by rw [payload, hv]; rfl, ?_⟩
    rw [hsorted _ [("inner", v), ("t", .text "group")] (by cbv), unwritable?_grouping, ← hw]
    simp [findSome?_cons_or]
  | binary left op right ihl ihr =>
    obtain ⟨l, hl, hlw⟩ := ihl ht.1
    obtain ⟨r, hr, hrw⟩ := ihr ht.2
    have hnames : ∀ symbol : Value, Value.sortMembers
        [("t", .text "op"), ("op", symbol), ("l", l), ("r", r)] =
          [("l", l), ("op", symbol), ("r", r), ("t", .text "op")] := by
      intro symbol
      cbv
    refine ⟨_, by rw [payload, hl, hr]; rfl, ?_⟩
    rw [hsorted _ _ (hnames _), unwritable?_binary, ← hlw, ← hrw]
    simp [findSome?_cons_or]
  | unsupported => exact ht.elim
  | foreign => exact ht.elim

theorem fingerprintValue_toRecord {t : Term} (h : t.WellFormed) :
    fingerprintValue t.toRecord = t.payload := by
  have hrecord := Term.ofRecord_toRecord t h
  cases t with
  | account ref => cases ref <;> rw [Term.toRecord, fingerprintValue, ← Term.toRecord, hrecord]
  | unsupported => exact h.elim
  | foreign => exact h.elim
  | _ => rw [Term.toRecord, fingerprintValue, ← Term.toRecord, hrecord]

/-- The inputs of an evaluation have a fingerprint unless a leaf of the tree
    cannot be written. -/
theorem failure?_evaluationFingerprint {t : Term} {kind : ResultKind} (ht : t.WellFormed)
    (hkind : kind.IsProper) : (evaluationFingerprint t kind).failure? = t.unwritable? := by
  obtain ⟨v, hv, hw⟩ := Term.exists_payload ht
  have hast : fingerprintValue t.toRecord = .ok v := (fingerprintValue_toRecord ht).trans hv
  obtain ⟨word, hword⟩ : ∃ word, fingerprintValue kind.toValue = .ok (.text word) := by
    cases kind with
    | other word => exact hkind.elim
    | _ => exact ⟨_, by rw [ResultKind.toValue, fingerprintValue]⟩
  have hinputs : evaluationFingerprint t kind =
      (Value.object [("ast", v), ("result_kind", .text word)]).digest >>= fun digest =>
        .ok (String.ofList (digest.toList.take fingerprintLength)) := by
    unfold evaluationFingerprint inputFingerprint
    simp [Value.lookup?, Value.put, hast, hword, bind, Except.bind, pure, Except.pure]
  have hsorted : Value.sortMembers [("ast", v), ("result_kind", .text word)] =
      [("ast", v), ("result_kind", .text word)] :=
    Value.sortMembers_pair (by decide) _ _
  rw [hinputs, Attempt.failure?_bind_ok, Value.digest, Attempt.failure?_map, Value.canonical,
    Attempt.failure?_map, ← Value.unwritable?, Value.unwritable?_object, hsorted, ← hw]
  simp [findSome?_cons_or]

theorem Term.isTraceable_iff {t : Term} {kind : ResultKind} (ht : t.WellFormed)
    (hkind : kind.IsProper) : t.IsTraceable kind ↔ t.unwritable? = none := by
  rw [← failure?_evaluationFingerprint ht hkind]
  exact Attempt.failure?_eq_none_iff.symm

/-! ### What an evaluation comes to -/

theorem fst_play_noteResult (r : Result) (j : Journal) : ((noteResult r).play j).1 = .ok () := by
  unfold noteResult
  split
  · split
    · exact fst_play_event _ _ _ ["references"] rfl (by decide) j
    · rfl
  · exact fst_play_event _ _ _ [] rfl (by decide) j

theorem fst_play_noteTrace (fingerprint : String) (r : Result) (j : Journal) :
    ((noteTrace fingerprint r).play j).1 = .ok () :=
  fst_play_event _ _ _ ["trace_type", "engine_name", "engine_version", "input_fingerprint",
    "is_valid", "error", "warning_count"] rfl (by decide) j

/-- A note that is always taken does not change what comes after it. -/
theorem fst_play_after_note {α : Type} {note : Log.Recorded Unit} {work : Log.Recorded α}
    {result : Attempt α} (hnote : ∀ j, (note.play j).1 = .ok ())
    (hwork : ∀ j, (work.play j).1 = result) (j : Journal) :
    ((note >>= fun _ => work).play j).1 = result := by
  rw [fst_play_bind, hnote]
  exact hwork _

/-- **An evaluation comes to the result of its tree**, after the fingerprint if
    details are recorded. -/
theorem fst_play_evaluate (t : Term) (balances : List AccountBalance) (kind : ResultKind)
    (j : Journal) :
    ((evaluate t balances kind).play j).1 =
      if j.setup.isEnabled Log.debug then
        evaluationFingerprint t kind >>= fun _ => t.result balances kind
      else t.result balances kind := by
  have hnoted : ∀ j : Journal, (((do
      let r ← Log.Recorded.attempt (t.result balances kind)
      noteResult r
      return r : Log.Recorded Result)).play j).1 = t.result balances kind := by
    intro j
    rw [fst_play_bind, play_attempt]
    cases t.result balances kind with
    | error f => rfl
    | ok r => exact fst_play_after_note (fst_play_noteResult r) (fun _ => rfl) j
  have htraced : ∀ (fingerprint : String) (j : Journal), (((do
      let r ← Log.Recorded.attempt (t.result balances kind)
      noteResult r
      noteTrace fingerprint r
      return r : Log.Recorded Result)).play j).1 = t.result balances kind := by
    intro fingerprint j
    rw [fst_play_bind, play_attempt]
    cases t.result balances kind with
    | error f => rfl
    | ok r =>
      exact fst_play_after_note (fst_play_noteResult r)
        (fst_play_after_note (fst_play_noteTrace fingerprint r) fun _ => rfl) j
  unfold evaluate
  rw [fst_play_bind]
  show ((if j.setup.isEnabled Log.debug = true then _ else _ : Log.Recorded Result).play j).1 = _
  cases j.setup.isEnabled Log.debug with
  | false => exact hnoted j
  | true =>
    show ((Log.Recorded.attempt (evaluationFingerprint t kind) >>= _).play j).1 = _
    rw [fst_play_bind, play_attempt]
    cases evaluationFingerprint t kind with
    | error f => rfl
    | ok fingerprint => exact htraced fingerprint j

theorem fst_play_evaluate_of_traceable {t : Term} {balances : List AccountBalance}
    {kind : ResultKind} {j : Journal} (h : j.IsQuiet ∨ t.IsTraceable kind) :
    ((evaluate t balances kind).play j).1 = t.result balances kind := by
  rw [fst_play_evaluate]
  rcases h with hquiet | ⟨fingerprint, hfingerprint⟩
  · exact if_neg (Bool.eq_false_iff.mp hquiet)
  · rw [hfingerprint]
    exact ite_self _

/-- What an evaluation comes to while details are recorded: the failure of a leaf
    that cannot be written comes before the result. -/
def Term.tracedResult (t : Term) (balances : List AccountBalance) (kind : ResultKind) :
    Attempt Result :=
  match t.unwritable? with
  | some f => .error f
  | none => t.result balances kind

theorem fst_play_evaluate_eq_tracedResult {t : Term} {kind : ResultKind} (ht : t.WellFormed)
    (hkind : kind.IsProper) (balances : List AccountBalance) {j : Journal} (hj : ¬j.IsQuiet) :
    ((evaluate t balances kind).play j).1 = t.tracedResult balances kind := by
  have hdetails : j.setup.isEnabled Log.debug = true := by simpa [Journal.IsQuiet] using hj
  rw [fst_play_evaluate, if_pos hdetails, Term.tracedResult,
    ← failure?_evaluationFingerprint ht hkind]
  cases evaluationFingerprint t kind <;> rfl

end KeyFigures
