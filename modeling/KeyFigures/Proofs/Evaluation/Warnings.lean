/-
  KeyFigures/Proofs/Evaluation/Warnings.lean
  ==========================================
  **The warnings of a walk.**

  A walk adds its warnings to those that it finds, in the order in which they
  come up, and none of a reference that is there already (`Warning.merge`).  What
  it adds does not depend on what it finds (`Term.isApart_value`), so the walk
  through a part of a tree leaves what it leaves by itself.
-/
import KeyFigures.Proofs.Evaluation.Agreement

namespace KeyFigures

/-! ### Warnings in the order of their first occurrence -/

namespace Warning

/-- The warnings met before, then those of a further walk that are new. -/
def merge (ws own : List Warning) : List Warning := own.foldl insert ws

/-- Whether there is a warning of the same reference. -/
def Has (ws : List Warning) (w : Warning) : Prop := ws.any (·.reference.same w.reference) = true

theorem has_iff {ws : List Warning} {w : Warning} :
    Has ws w ↔ ∃ v ∈ ws, v.reference.same w.reference = true :=
  List.any_eq_true

theorem insert_of_has {ws : List Warning} {w : Warning} (h : Has ws w) : insert ws w = ws :=
  if_pos h

theorem insert_of_not_has {ws : List Warning} {w : Warning} (h : ¬Has ws w) :
    insert ws w = ws ++ [w] :=
  if_neg h

theorem Has.insert {ws : List Warning} {w : Warning} (h : Has ws w) (v : Warning) :
    Has (Warning.insert ws v) w := by
  obtain ⟨u, hu, hsame⟩ := has_iff.mp h
  refine has_iff.mpr ⟨u, ?_, hsame⟩
  by_cases hv : Has ws v
  · rwa [insert_of_has hv]
  · rw [insert_of_not_has hv]
    exact List.mem_append_left _ hu

theorem has_insert_of_same (ws : List Warning) {v w : Warning}
    (h : v.reference.same w.reference = true) : Has (insert ws v) w := by
  by_cases hv : Has ws v
  · obtain ⟨u, hu, hsame⟩ := has_iff.mp hv
    rw [insert_of_has hv]
    exact has_iff.mpr ⟨u, hu, (Value.same_congr hsame _).trans h⟩
  · rw [insert_of_not_has hv]
    exact has_iff.mpr ⟨v, by simp, h⟩

theorem Has.merge {ws : List Warning} {w : Warning} (h : Has ws w) (own : List Warning) :
    Has (Warning.merge ws own) w := by
  induction own generalizing ws with
  | nil => exact h
  | cons v own ih => exact ih (h.insert v)

theorem has_merge_of_has {own : List Warning} {w : Warning} (h : Has own w) (ws : List Warning) :
    Has (merge ws own) w := by
  induction own generalizing ws with
  | nil => simp [Has] at h
  | cons v own ih =>
    obtain ⟨u, hu, hsame⟩ := has_iff.mp h
    rcases List.mem_cons.mp hu with rfl | hu
    · exact (has_insert_of_same ws hsame).merge own
    · exact ih (has_iff.mpr ⟨u, hu, hsame⟩) (insert ws v)

theorem insert_merge (ws own : List Warning) (w : Warning) :
    insert (merge ws own) w = merge ws (insert own w) := by
  by_cases h : Has own w
  · rw [insert_of_has h, insert_of_has (has_merge_of_has h ws)]
  · rw [insert_of_not_has h, merge, merge, List.foldl_append]
    rfl

/-- Merging can start with any of three lists. -/
theorem merge_merge (ws own more : List Warning) :
    merge (merge ws own) more = merge ws (merge own more) := by
  induction more generalizing own with
  | nil => rfl
  | cons w more ih =>
    have hstart : merge (merge ws own) (w :: more) = merge (merge ws (insert own w)) more := by
      rw [← insert_merge]
      rfl
    rw [hstart, ih]
    rfl

end Warning

/-! ### Walks that are made apart -/

namespace Walk

variable {α β : Type}

/-- A walk that starts without warnings and hands over its own at the end. -/
def apart (m : Walk α) : Walk α := fun ws => ((m.run []).1, Warning.merge ws (m.run []).2)

/-- It makes no difference whether the walk is made apart. -/
def IsApart (m : Walk α) : Prop := ∀ ws, m.run ws = ((m.run []).1, Warning.merge ws (m.run []).2)

theorem apart_eq_self {m : Walk α} (h : m.IsApart) : m.apart = m :=
  funext fun ws => (h ws).symm

theorem isApart_pure (a : α) : IsApart (pure a) := fun _ => rfl

theorem isApart_throw (stop : Stop) : IsApart (throw stop : Walk α) := fun _ => rfl

theorem isApart_mk (x : Except Stop α) : IsApart (ExceptT.mk (pure x)) := fun _ => rfl

theorem isApart_attempt (a : Attempt α) : IsApart (Walk.attempt a) := by
  intro ws
  cases a <;> rfl

theorem isApart_warn (w : Warning) :
    IsApart (modify fun ws => Warning.insert ws w) := fun _ => rfl

theorem IsApart.bind {m : Walk α} {f : α → Walk β} (hm : m.IsApart) (hf : ∀ a, (f a).IsApart) :
    IsApart (m >>= f) := by
  intro ws
  rw [Term.run_bind, Term.run_bind, hm ws]
  rcases m.run [] with ⟨stop | a, own⟩
  · rfl
  · dsimp only
    rw [hf a (Warning.merge ws own), hf a own, Warning.merge_merge]

end Walk

theorem AccountReference.isApart_value (balances : List AccountBalance) (ref : AccountReference) :
    (ref.value balances).IsApart := by
  refine (Walk.isApart_attempt _).bind fun selection => ?_
  split
  · exact (Walk.isApart_warn _).bind fun _ => Walk.isApart_pure _
  · exact Walk.isApart_pure _

namespace Term

/-- What a walk through a tree comes to, and which warnings it adds, does not
    depend on the warnings met before. -/
theorem isApart_value (balances : List AccountBalance) (t : Term) :
    (t.value balances).IsApart := by
  induction t with
  | account ref => exact ref.isApart_value balances
  | constant value => exact Walk.isApart_pure value
  | formula id => exact Walk.isApart_throw _
  | grouping inner ih => exact ih
  | binary left op right ihl ihr =>
    exact ihl.bind fun x => ihr.bind fun y => Walk.isApart_mk (op.apply x y)
  | unsupported left symbol right ihl ihr =>
    exact ihl.bind fun _ => ihr.bind fun _ => Walk.isApart_throw _
  | foreign thing => exact Walk.isApart_throw _

theorem value_apart (balances : List AccountBalance) (t : Term) :
    (t.value balances).apart = t.value balances :=
  Walk.apart_eq_self (t.isApart_value balances)

end Term

end KeyFigures
