/-
  KeyFigures/Proofs/Value/Distinct.lean
  =====================================
  **Each item once, at its first occurrence.**

  Dropping repeats goes together with leaving items out (`eraseDups_filter`) and
  with giving them other names (`eraseDups_map`); for texts, dropping repeats by
  value is dropping repeats (`Value.distinct_map_text`).
-/
import KeyFigures.Value.Comparison
import Mathlib

namespace KeyFigures

variable {α β : Type} [BEq α] [LawfulBEq α] [BEq β] [LawfulBEq β]

theorem eraseDups_filter (p : α → Bool) (xs : List α) :
    (xs.filter p).eraseDups = xs.eraseDups.filter p := by
  -- on the length: the recursion of `eraseDups` takes out more than the first item
  induction hn : xs.length using Nat.strong_induction_on generalizing xs with
  | h n ih =>
    cases xs with
    | nil => rfl
    | cons x xs =>
      subst hn
      have hrest : ((xs.filter (!· == x)).filter p).eraseDups =
          (xs.filter (!· == x)).eraseDups.filter p :=
        ih _ (Nat.lt_succ_of_le (List.length_filter_le _ _)) _ rfl
      rw [List.eraseDups_cons, List.filter_cons, List.filter_cons, ← hrest, List.filter_comm]
      split
      · rw [List.eraseDups_cons]
      · rename_i hx
        congr 1
        rw [List.filter_filter]
        refine List.filter_congr fun y hy => ?_
        by_cases hy : y = x
        · simp [hy, hx]
        · simp [hy]

/-- The last item counts if it is new. -/
theorem eraseDups_concat (xs : List α) (x : α) :
    (xs ++ [x]).eraseDups = if xs.contains x then xs.eraseDups else xs.eraseDups ++ [x] := by
  rw [List.eraseDups_append]
  by_cases hx : x ∈ xs
  · simp [List.removeAll, hx]
  · simp [List.removeAll, hx, List.eraseDups_cons]

/-- Different items keep apart under other names. -/
theorem eraseDups_map {f : α → β} (hf : Function.Injective f) (xs : List α) :
    (xs.map f).eraseDups = xs.eraseDups.map f := by
  induction xs using List.reverseRecOn with
  | nil => rfl
  | append_singleton xs x ih =>
    have hnew : (xs.map f).contains (f x) = xs.contains x := by
      rw [Bool.eq_iff_iff, List.contains_iff_mem, List.contains_iff_mem, List.mem_map_of_injective hf]
    rw [List.map_append, List.map_cons, List.map_nil, eraseDups_concat, eraseDups_concat, hnew, ih]
    split
    · rfl
    · rw [List.map_append, List.map_cons, List.map_nil]

theorem eraseDups_of_nodup {xs : List α} (h : xs.Nodup) : xs.eraseDups = xs := by
  induction xs with
  | nil => rfl
  | cons x xs ih =>
    obtain ⟨hx, hxs⟩ := List.nodup_cons.mp h
    have hothers : xs.filter (!· == x) = xs :=
      List.filter_eq_self.mpr fun y hy => by simpa using ne_of_mem_of_not_mem hy hx
    rw [List.eraseDups_cons, hothers, ih hxs]

theorem Value.distinct_map_text (xs : List String) :
    Value.distinct (xs.map .text) = xs.eraseDups.map .text := by
  induction xs with
  | nil => rfl
  | cons x xs ih =>
    have hsame : ∀ y : String, (!(Value.text x).same (.text y)) = !y == x := by
      intro y
      simp [Value.same, Value.unified, Bool.beq_comm]
    rw [List.map_cons, Value.distinct, ih, List.eraseDups_cons, eraseDups_filter, List.map_cons,
      List.filter_map]
    simp only [Function.comp_def, hsame]

end KeyFigures
