/-
  KeyFigures/Proofs/Value/Failing.lean
  ====================================
  **How an attempt can fail.**

  Much of the work ends in one of many failures, and what matters is of which
  kind they are (`Attempt.FailsOnly`).  Work in steps fails only in the ways of
  its steps, and work through a list succeeds exactly if it does for each item.
-/
import KeyFigures.Failure
import Mathlib

namespace KeyFigures

namespace Attempt

/-- Every failure of an attempt is of a kind. -/
def FailsOnly {α : Type} (P : Failure → Prop) (x : Attempt α) : Prop := ∀ f, x = .error f → P f

namespace FailsOnly

variable {α β : Type} {P Q : Failure → Prop}

theorem ok (a : α) : FailsOnly P (.ok a) := by
  intro f h
  cases h

theorem error {f : Failure} (h : P f) : FailsOnly P (.error f : Attempt α) := by
  rintro f' ⟨⟩
  exact h

theorem mono {x : Attempt α} (hx : x.FailsOnly P) (h : ∀ f, P f → Q f) : x.FailsOnly Q :=
  fun f hf => h f (hx f hf)

theorem bind {x : Attempt α} {next : α → Attempt β} (hx : x.FailsOnly P)
    (hnext : ∀ a, (next a).FailsOnly P) : (x >>= next).FailsOnly P := by
  intro f h
  rcases Attempt.bind_eq_error.mp h with hfail | ⟨a, -, hfail⟩
  · exact hx f hfail
  · exact hnext a f hfail

theorem map {x : Attempt α} (hx : x.FailsOnly P) (g : α → β) :
    FailsOnly P (x.map g : Attempt β) := by
  cases x with
  | ok a => exact ok (g a)
  | error f => exact error (hx f rfl)

theorem foldlM {g : β → α → Attempt β} (hg : ∀ b a, (g b a).FailsOnly P) (items : List α) :
    ∀ b, FailsOnly P (items.foldlM g b) := by
  induction items with
  | nil => exact ok
  | cons a rest ih =>
    intro b
    rw [List.foldlM_cons]
    exact (hg b a).bind ih

theorem mapM {g : α → Attempt β} (hg : ∀ a, (g a).FailsOnly P) (items : List α) :
    FailsOnly P (items.mapM g) := by
  induction items with
  | nil => exact ok []
  | cons a rest ih =>
    rw [List.mapM_cons]
    exact (hg a).bind fun _ => ih.bind fun _ => .ok _

theorem ofTyped {found : Option α} (h : P (.misuse .mistyped)) :
    FailsOnly P (Attempt.ofTyped found) := by
  cases found with
  | none => exact error h
  | some a => exact ok a

theorem ofDecimal {x : Except Decimal.Fault α} (h : ∀ fault, P (.number fault)) :
    FailsOnly P (Attempt.ofDecimal x) := by
  cases x with
  | ok a => exact ok a
  | error fault => exact error (h fault)

end FailsOnly

end Attempt

/-! ### Work through a list -/

theorem mapM_eq_ok_iff {ε α β : Type} {g : α → Except ε β} {xs : List α} :
    ∀ {ys : List β}, xs.mapM g = .ok ys ↔ List.Forall₂ (fun x y => g x = .ok y) xs ys := by
  induction xs with
  | nil => intro ys; simp [pure, Except.pure, eq_comm]
  | cons x xs ih =>
    intro ys
    rw [List.mapM_cons]
    cases hx : g x with
    | error e => simp [bind, Except.bind, List.forall₂_cons_left_iff, hx]
    | ok y =>
      cases hxs : xs.mapM g with
      | error e =>
        have hno : ∀ zs, ¬List.Forall₂ (fun x y => g x = .ok y) xs zs := by
          intro zs hzs
          rw [ih.mpr hzs] at hxs
          cases hxs
        simp [bind, Except.bind, List.forall₂_cons_left_iff, hno]
      | ok zs =>
        have hall := ih.mp hxs
        simp only [bind, Except.bind, pure, Except.pure, Except.ok.injEq,
          List.forall₂_cons_left_iff, hx]
        constructor
        · rintro rfl
          exact ⟨y, zs, rfl, hall, rfl⟩
        · rintro ⟨y', zs', rfl, hzs', rfl⟩
          have heq : xs.mapM g = .ok zs' := ih.mpr hzs'
          rw [hxs] at heq
          rw [Except.ok.inj heq]

theorem exists_mapM_forall₂ {ε α β : Type} {g : α → Except ε β} {P : α → β → Prop} {xs : List α}
    (h : ∀ x ∈ xs, ∃ y, g x = .ok y ∧ P x y) :
    ∃ ys, xs.mapM g = .ok ys ∧ List.Forall₂ P xs ys := by
  induction xs with
  | nil => exact ⟨[], rfl, .nil⟩
  | cons x xs ih =>
    obtain ⟨y, hy, hxy⟩ := h x List.mem_cons_self
    obtain ⟨ys, hys, hall⟩ := ih fun z hz => h z (List.mem_cons_of_mem _ hz)
    exact ⟨y :: ys, by rw [List.mapM_cons, hy, hys]; rfl, .cons hxy hall⟩

theorem exists_of_mem_of_mapM {ε α β : Type} {g : α → Except ε β} {xs : List α} {ys : List β}
    (h : xs.mapM g = .ok ys) {x : α} (hx : x ∈ xs) : ∃ y ∈ ys, g x = .ok y := by
  have hall := mapM_eq_ok_iff.mp h
  clear h
  induction hall with
  | nil => cases hx
  | cons hy _ ih =>
    rcases List.mem_cons.mp hx with rfl | hx
    · exact ⟨_, List.mem_cons_self, hy⟩
    · obtain ⟨y, hmem, hxy⟩ := ih hx
      exact ⟨y, List.mem_cons_of_mem _ hmem, hxy⟩

theorem eq_filterMap_of_mapM {ε α β : Type} {g : α → Except ε β} {xs : List α} {ys : List β}
    (h : xs.mapM g = .ok ys) : ys = xs.filterMap fun x => (g x).toOption := by
  have hall := mapM_eq_ok_iff.mp h
  clear h
  induction hall with
  | nil => rfl
  | cons hy _ ih =>
    rw [List.filterMap_cons, hy, ← ih]
    rfl

/-- If all that fail fail alike, and something does, then the whole fails that
    way. -/
theorem mapM_eq_error {ε α β : Type} {g : α → Except ε β} {xs : List α} {e : ε}
    (h : ∃ x ∈ xs, g x = .error e) (hsame : ∀ x ∈ xs, ∀ e', g x = .error e' → e' = e) :
    xs.mapM g = .error e := by
  induction xs with
  | nil => simp at h
  | cons x xs ih =>
    rw [List.mapM_cons]
    cases hx : g x with
    | error e' => rw [hsame x List.mem_cons_self e' hx]; rfl
    | ok y =>
      have hrest : ∃ x ∈ xs, g x = .error e := by
        obtain ⟨z, hz, hze⟩ := h
        rcases List.mem_cons.mp hz with rfl | hz
        · rw [hx] at hze
          cases hze
        · exact ⟨z, hz, hze⟩
      rw [ih hrest fun z hz => hsame z (List.mem_cons_of_mem _ hz)]
      rfl

/-- Work through a list fails as it does for one of its items. -/
theorem exists_of_mapM_eq_error {ε α β : Type} {g : α → Except ε β} {xs : List α} {e : ε}
    (h : xs.mapM g = .error e) : ∃ x ∈ xs, g x = .error e := by
  induction xs with
  | nil => cases h
  | cons x xs ih =>
    rw [List.mapM_cons] at h
    cases hx : g x with
    | error e' =>
      rw [hx] at h
      exact ⟨x, List.mem_cons_self, by rw [hx, Except.error.inj h]⟩
    | ok y =>
      rw [hx] at h
      cases hxs : xs.mapM g with
      | ok ys =>
        rw [hxs] at h
        cases h
      | error e' =>
        rw [hxs] at h
        obtain rfl := Except.error.inj h
        obtain ⟨z, hz, hze⟩ := ih hxs
        exact ⟨z, List.mem_cons_of_mem _ hz, hze⟩

end KeyFigures
