/-
  KeyFigures/Proofs/Decimal/Totals.lean
  =====================================
  **Totals of decimals, with infinities among them.**

  Decimals are added up one after the other, and every step may round.  If no
  finite sum on the way needs more digits than are kept, the total says all
  there is to say: it denotes the exact sum, unless an infinity takes part, and
  then it is that infinity, or there is no total because infinities of both
  signs do (`isTotal_total`).

  So lists of decimals have the same total if they agree in their infinities and
  in their exact sums, however they are ordered and grouped (`IsTotal.transfer`,
  `IsTotal.alike`).
-/
import KeyFigures.Proofs.Decimal.Exact

namespace KeyFigures.Decimal

/-- Decimals added up from the first to the last. -/
def total (ds : List Decimal) : Except Fault Decimal := ds.foldlM add zero

theorem total_append_singleton (ds : List Decimal) (d : Decimal) :
    total (ds ++ [d]) = total ds >>= fun sum => sum.add d := by
  unfold total
  rw [List.foldlM_append]
  congr 1
  funext sum
  exact bind_pure (sum.add d)

/-- No sum of finite decimals on the way from the first to the last needs more
    digits than are kept. -/
def AddsUp (ds : List Decimal) : Prop :=
  ∀ seen, seen <+: ds → (∀ d ∈ seen, d.isFinite) → IsRepresentable (seen.map toRat).sum

/-- Decimals with at most `k` places add up if their sizes together stay below
    what the other digits can hold. -/
theorem addsUp_of_places {k : Nat} (hk : k ≤ precision) {ds : List Decimal}
    (hplaces : ∀ d ∈ ds, -(k : Int) ≤ d.exponent)
    (hsmall : (ds.map fun d => |d.toRat|).sum < 10 ^ (-(k : ℤ) + precision)) : AddsUp ds := by
  intro seen hseen hfinite
  have hunits : ∃ n : ℤ, (seen.map toRat).sum = n * 10 ^ (-(k : ℤ)) := by
    have hall : ∀ d ∈ seen, -(k : Int) ≤ d.exponent := fun d hd => hplaces d (hseen.subset hd)
    clear hseen
    induction seen with
    | nil => exact ⟨0, by simp⟩
    | cons d seen ih =>
      obtain ⟨hd, hrest⟩ := List.forall_mem_cons.mp hall
      obtain ⟨hdfinite, hrestfinite⟩ := List.forall_mem_cons.mp hfinite
      obtain ⟨n, hn⟩ := ih hrestfinite hrest
      obtain ⟨m, hm⟩ := (denotes_toRat hdfinite).exists_units hd
      exact ⟨m + n, by rw [List.map_cons, List.sum_cons, hn, hm, Int.cast_add, add_mul]⟩
  have hsize : |(seen.map toRat).sum| < 10 ^ (-(k : ℤ) + precision) :=
    lt_of_le_of_lt ((abs_sum_map_le toRat seen).trans (sum_abs_map_le toRat hseen.sublist)) hsmall
  obtain ⟨n, hn⟩ := hunits
  rw [hn] at hsize ⊢
  have hprecision : precision = 28 := rfl
  have hmin : minExponent = -1000026 := by decide
  exact isRepresentable_of_fits (by omega) (by omega) hsize

/-- What a total says, apart from how it is written: the exact sum of finite
    decimals, the one infinity that takes part, or nothing where both do. -/
inductive IsTotal (ds : List Decimal) : Except Fault Decimal → Prop
  | finite {d : Decimal} : (∀ x ∈ ds, x.isFinite) → d.Denotes (ds.map toRat).sum →
    IsTotal ds (.ok d)
  | infinite {n : Bool} : .infinite n ∈ ds → .infinite (!n) ∉ ds → IsTotal ds (.ok (.infinite n))
  | opposite : (∀ n, .infinite n ∈ ds) → IsTotal ds (.error .invalid)

section Adding

variable {d : Decimal} {n : Bool}

theorem infinite_add_finite (hd : d.isFinite) : (infinite n).add d = .ok (.infinite n) := by
  cases d with
  | finite m c e => rfl
  | infinite m => cases hd
  | nan m s p => cases hd

theorem finite_add_infinite (hd : d.isFinite) : d.add (.infinite n) = .ok (.infinite n) := by
  cases d with
  | finite m c e => rfl
  | infinite m => cases hd
  | nan m s p => cases hd

theorem infinite_add_infinite (m n : Bool) :
    (infinite m).add (.infinite n) = if m = n then .ok (.infinite m) else .error .invalid := rfl

/-- A decimal that is a number is finite or one of the infinities. -/
theorem isFinite_or_infinite (h : d.isNan = false) : d.isFinite ∨ ∃ n, d = .infinite n := by
  cases d with
  | finite m c e => exact .inl rfl
  | infinite m => exact .inr ⟨m, rfl⟩
  | nan m s p => cases h

theorem not_isFinite_infinite : ¬ (infinite n).isFinite := nofun

end Adding

namespace IsTotal

variable {ds : List Decimal} {r : Except Fault Decimal}

/-- One more finite decimal. -/
theorem append_finite (h : IsTotal ds r) {d : Decimal} (hd : d.isFinite)
    (hfits : (∀ x ∈ ds ++ [d], x.isFinite) → IsRepresentable ((ds ++ [d]).map toRat).sum) :
    IsTotal (ds ++ [d]) (r >>= fun sum => sum.add d) := by
  cases h with
  | @finite sum hall hsum =>
    have hwhole : ∀ x ∈ ds ++ [d], x.isFinite := by simpa [or_imp, forall_and] using ⟨hall, hd⟩
    have hrepresentable : IsRepresentable ((ds.map toRat).sum + d.toRat) := by
      simpa using hfits hwhole
    obtain ⟨next, hnext, hdenotes⟩ := hsum.add (denotes_toRat hd) hrepresentable
    show IsTotal _ (sum.add d)
    rw [hnext]
    exact .finite hwhole (by simpa using hdenotes)
  | @infinite m hin hout =>
    show IsTotal _ ((Decimal.infinite m).add d)
    rw [infinite_add_finite hd]
    refine .infinite (by simp [hin]) fun hmem => ?_
    rcases List.mem_append.mp hmem with hmem | hmem
    · exact hout hmem
    · rw [← List.mem_singleton.mp hmem] at hd
      exact not_isFinite_infinite hd
  | opposite hboth => exact .opposite fun m => List.mem_append_left _ (hboth m)

/-- One more infinity. -/
theorem append_infinite (h : IsTotal ds r) (n : Bool) :
    IsTotal (ds ++ [.infinite n]) (r >>= fun sum => sum.add (.infinite n)) := by
  cases h with
  | @finite sum hall hsum =>
    show IsTotal _ (sum.add (.infinite n))
    rw [finite_add_infinite hsum.isFinite]
    refine .infinite (by simp) fun hmem => ?_
    rcases List.mem_append.mp hmem with hmem | hmem
    · exact not_isFinite_infinite (hall _ hmem)
    · cases n <;> simp at hmem
  | @infinite m hin hout =>
    show IsTotal _ ((Decimal.infinite m).add (.infinite n))
    rw [infinite_add_infinite]
    by_cases hsame : m = n
    · subst hsame
      rw [if_pos rfl]
      refine .infinite (by simp) fun hmem => ?_
      rcases List.mem_append.mp hmem with hmem | hmem
      · exact hout hmem
      · cases m <;> simp at hmem
    · obtain rfl : n = !m := Bool.eq_not.mpr (Ne.symm hsame)
      rw [if_neg hsame]
      refine .opposite fun k => ?_
      rcases Bool.eq_or_eq_not k m with rfl | rfl
      · exact List.mem_append_left _ hin
      · simp
  | opposite hboth => exact .opposite fun m => List.mem_append_left _ (hboth m)

end IsTotal

/-- The total of numbers says all there is to say, by induction from the last
    one backwards. -/
theorem isTotal_total {ds : List Decimal} (hnumbers : ∀ d ∈ ds, d.isNan = false)
    (h : AddsUp ds) : IsTotal ds (total ds) := by
  induction ds using List.reverseRecOn with
  | nil => exact .finite (by simp) ⟨rfl, toRat_zero_coefficient false 0⟩
  | append_singleton ds d ih =>
    have hfirst : ds <+: ds ++ [d] := List.prefix_append ds [d]
    have hsofar := ih (fun x hx => hnumbers x (hfirst.subset hx))
      fun seen hseen => h seen (hseen.trans hfirst)
    rw [total_append_singleton]
    rcases isFinite_or_infinite (hnumbers d (by simp)) with hd | ⟨n, rfl⟩
    · exact hsofar.append_finite hd (h _ List.prefix_rfl)
    · exact hsofar.append_infinite n

namespace IsTotal

variable {ds ds' : List Decimal} {r r' : Except Fault Decimal}

/-- An infinity takes part exactly if it comes out, unless nothing does. -/
theorem eq_infinite_iff {d : Decimal} (h : IsTotal ds (.ok d)) (n : Bool) :
    d = .infinite n ↔ .infinite n ∈ ds := by
  cases h with
  | finite hall hd =>
    constructor
    · rintro rfl
      exact absurd hd.isFinite not_isFinite_infinite
    · exact fun hmem => absurd (hall _ hmem) not_isFinite_infinite
  | @infinite m hin hout =>
    constructor
    · rintro ⟨⟩
      exact hin
    · intro hmem
      rcases Bool.eq_or_eq_not n m with rfl | rfl
      · rfl
      · exact absurd hmem hout

/-- Two totals of the same decimals fail alike or denote the same. -/
theorem alike (h : IsTotal ds r) (h' : IsTotal ds r') : Alike Agrees r r' := by
  cases h with
  | finite hall hd =>
    cases h' with
    | finite _ hd' => exact hd.agrees hd'
    | infinite hin => exact absurd (hall _ hin) not_isFinite_infinite
    | opposite hboth => exact absurd (hall _ (hboth true)) not_isFinite_infinite
  | @infinite n hin hout =>
    cases h' with
    | finite hall => exact absurd (hall _ hin) not_isFinite_infinite
    | @infinite m hin' hout' =>
      rcases Bool.eq_or_eq_not n m with rfl | rfl
      · exact .same _
      · exact absurd hin hout'
    | opposite hboth => exact absurd (hboth _) hout
  | opposite hboth =>
    cases h' with
    | finite hall => exact absurd (hall _ (hboth true)) not_isFinite_infinite
    | infinite _ hout => exact absurd (hboth _) hout
    | opposite _ => exact rfl

/-- A total is that of all numbers with the same infinities and, if there are
    none, with the same exact sum. -/
theorem transfer (h : IsTotal ds r) (hnumbers : ∀ d ∈ ds', d.isNan = false)
    (hinfinite : ∀ n, .infinite n ∈ ds ↔ .infinite n ∈ ds')
    (hsum : (∀ d ∈ ds, d.isFinite) → (ds.map toRat).sum = (ds'.map toRat).sum) :
    IsTotal ds' r := by
  cases h with
  | finite hall hd =>
    refine .finite (fun x hx => ?_) (hsum hall ▸ hd)
    rcases isFinite_or_infinite (hnumbers x hx) with hfinite | ⟨n, rfl⟩
    · exact hfinite
    · exact absurd (hall _ ((hinfinite n).mpr hx)) not_isFinite_infinite
  | infinite hin hout => exact .infinite ((hinfinite _).mp hin) fun h => hout ((hinfinite _).mpr h)
  | opposite hboth => exact .opposite fun n => (hinfinite n).mp (hboth n)

/-- A total that is finite denotes the exact sum. -/
theorem toRat_eq {d : Decimal} (h : IsTotal ds (.ok d)) (hd : d.isFinite) :
    d.toRat = (ds.map toRat).sum := by
  cases h with
  | finite _ hdenotes => exact hdenotes.toRat_eq
  | infinite => exact absurd hd not_isFinite_infinite

/-- A total is a number. -/
theorem isNan_eq_false {d : Decimal} (h : IsTotal ds (.ok d)) : d.isNan = false := by
  cases h with
  | finite _ hd =>
    obtain ⟨n, c, e, rfl, -⟩ := hd.exists_eq
    rfl
  | infinite => rfl

/-- There is a total unless infinities of both signs take part. -/
theorem exists_eq_ok {n : Bool} (h : IsTotal ds r) (hn : .infinite n ∉ ds) : ∃ d, r = .ok d := by
  cases h with
  | finite => exact ⟨_, rfl⟩
  | infinite => exact ⟨_, rfl⟩
  | opposite hboth => exact absurd (hboth n) hn

end IsTotal

end KeyFigures.Decimal
