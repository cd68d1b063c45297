/-
  KeyFigures/Proofs/Value/Reordered.lean
  ======================================
  **One canonical text for all orders of members.**

  Data is reordered if its objects, at any depth, list their members in another
  order and nothing else is changed (`Reordered`).  The arranged form of data
  stands for all its reorderings (`arranged_eq_iff`): sorting members of
  different names forgets their order and nothing else (`sortMembers_eq_iff`).
  So plain data has one canonical text exactly up to reordering, and the
  checksum of a library tells everything else apart, as far as the digest tells
  texts apart (`canonical_eq_iff_reordered`).
-/
import KeyFigures.Library.Basic
import KeyFigures.Proofs.Value.Canonical

namespace KeyFigures

namespace Digest

/-- Different texts that the digest does not tell apart. -/
def Collides (s t : String) : Prop := s ≠ t ∧ ofText s = ofText t

/-- Texts with one digest are the same, or they collide. -/
theorem ofText_eq_iff (s t : String) : ofText s = ofText t ↔ s = t ∨ Collides s t := by
  unfold Collides
  by_cases h : s = t
  · simp [h]
  · simp [h]

end Digest

namespace Value

/-- The same data, but for the order in which objects list their members. -/
inductive Reordered : Value → Value → Prop
  | null : Reordered .null .null
  | bool (b : Bool) : Reordered (.bool b) (.bool b)
  | int (n : Int) : Reordered (.int n) (.int n)
  | text (s : String) : Reordered (.text s) (.text s)
  | list {xs ys : List Value} : List.Forall₂ Reordered xs ys → Reordered (.list xs) (.list ys)
  /-- The members in another order, each with its own name, and data inside
      that may be reordered, too. -/
  | object {ms ks ns : List (String × Value)} : ms.Perm ks → ks.map (·.1) = ns.map (·.1) →
      List.Forall₂ Reordered (ks.map (·.2)) (ns.map (·.2)) → Reordered (.object ms) (.object ns)

/-! ### Sorted members -/

theorem pairwise_sortMembers {α : Type} (members : List (String × α)) :
    (sortMembers members).Pairwise fun a b => a.1 ≤ b.1 := by
  have htrans : ∀ a b c : String × α, decide (a.1 ≤ b.1) = true → decide (b.1 ≤ c.1) = true →
      decide (a.1 ≤ c.1) = true := by
    simp only [decide_eq_true_eq]
    exact fun a b c => le_trans
  have htotal : ∀ a b : String × α, (decide (a.1 ≤ b.1) || decide (b.1 ≤ a.1)) = true := by
    simp only [Bool.or_eq_true, decide_eq_true_eq]
    exact fun a b => le_total a.1 b.1
  have hsorted := List.pairwise_mergeSort htrans htotal members
  unfold sortMembers
  simpa only [decide_eq_true_eq] using hsorted

/-- Sorting forgets the order of members of different names, and nothing else. -/
theorem sortMembers_eq_iff {α : Type} {ms ns : List (String × α)} (h : (ms.map (·.1)).Nodup) :
    sortMembers ms = sortMembers ns ↔ ms.Perm ns := by
  constructor
  · intro heq
    exact (sortMembers_perm ms).symm.trans (heq ▸ sortMembers_perm ns)
  · intro hperm
    have hsorted : (sortMembers ms).Perm (sortMembers ns) :=
      (sortMembers_perm ms).trans (hperm.trans (sortMembers_perm ns).symm)
    -- members that are not apart in order have one name, so they are one member
    refine List.Perm.eq_of_pairwise ?_ (pairwise_sortMembers ms) (pairwise_sortMembers ns) hsorted
    intro a b ha hb hab hba
    have ha : a ∈ ms := (sortMembers_perm ms).mem_iff.mp ha
    have hb : b ∈ ms := hperm.mem_iff.mpr ((sortMembers_perm ns).mem_iff.mp hb)
    exact List.inj_on_of_nodup_map h ha hb (le_antisymm hab hba)

/-! ### Arranged forms -/

theorem arranged_list (items : List Value) :
    (Value.list items).arranged = .list (items.map arranged) := by
  rw [arranged, arrangedItems_eq_map]

theorem arranged_object (members : List (String × Value)) :
    (Value.object members).arranged =
      .object (sortMembers (members.map fun m => (m.1, m.2.arranged))) := by
  rw [arranged, arrangedMembers_eq_map]

/-- Members of two objects have one arranged form if they have the same names
    and, one by one, one arranged form. -/
theorem map_arranged_eq_iff (ks ns : List (String × Value)) :
    (ks.map fun m => (m.1, m.2.arranged)) = (ns.map fun m => (m.1, m.2.arranged)) ↔
      ks.map (·.1) = ns.map (·.1) ∧
        (ks.map (·.2)).map arranged = (ns.map (·.2)).map arranged := by
  induction ks generalizing ns with
  | nil => cases ns <;> simp
  | cons k ks ih =>
    cases ns with
    | nil => simp
    | cons n ns =>
      simp only [List.map_cons, List.cons.injEq, Prod.mk.injEq, ih]
      tauto

/-- Objects have one arranged form if the members of one, in some order, have
    it one by one with those of the other. -/
theorem arranged_object_eq_iff {ms ns : List (String × Value)} (h : (ms.map (·.1)).Nodup) :
    (Value.object ms).arranged = (Value.object ns).arranged ↔
      ∃ ks, ms.Perm ks ∧ ks.map (·.1) = ns.map (·.1) ∧
        (ks.map (·.2)).map arranged = (ns.map (·.2)).map arranged := by
  have hnames : ((ms.map fun m => (m.1, m.2.arranged)).map (·.1)).Nodup := by
    rw [List.map_map]
    exact h
  rw [arranged_object, arranged_object, Value.object.injEq, sortMembers_eq_iff hnames,
    List.perm_comm]
  have hperm := congrFun (congrFun
    (List.eq_map_comp_perm fun m : String × Value => (m.1, m.2.arranged))
    (ns.map fun m => (m.1, m.2.arranged))) ms
  rw [← hperm]
  constructor
  · rintro ⟨ks, heq, hks⟩
    exact ⟨ks, hks.symm, (map_arranged_eq_iff ks ns).mp heq.symm⟩
  · rintro ⟨ks, hks, heq⟩
    exact ⟨ks, ((map_arranged_eq_iff ks ns).mpr heq).symm, hks.symm⟩

theorem map_arranged_eq_iff_forall₂ {xs ys : List Value}
    (h : ∀ v ∈ xs, ∀ w ∈ ys, v.arranged = w.arranged ↔ Reordered v w) :
    xs.map arranged = ys.map arranged ↔ List.Forall₂ Reordered xs ys := by
  induction xs generalizing ys with
  | nil => cases ys <;> simp
  | cons x xs ih =>
    cases ys with
    | nil => simp
    | cons y ys =>
      have htail := ih fun v hv w hw =>
        h v (List.mem_cons_of_mem _ hv) w (List.mem_cons_of_mem _ hw)
      rw [List.map_cons, List.map_cons, List.cons.injEq, List.forall₂_cons, htail,
        h x List.mem_cons_self y List.mem_cons_self]

/-- Plain data has one arranged form exactly if it is reordered. -/
theorem arranged_eq_iff {v w : Value} (hv : v.IsPlain) (hw : w.IsPlain) :
    v.arranged = w.arranged ↔ v.Reordered w := by
  -- where the constructors differ, both sides are false
  induction hv generalizing w with
  | null =>
    cases hw with
    | null => exact ⟨fun _ => .null, fun _ => rfl⟩
    | _ => exact ⟨nofun, nofun⟩
  | bool b =>
    cases hw with
    | bool c =>
      constructor
      · rintro ⟨⟩
        exact .bool b
      · rintro ⟨⟩
        rfl
    | _ => exact ⟨nofun, nofun⟩
  | int n =>
    cases hw with
    | int m =>
      constructor
      · rintro ⟨⟩
        exact .int n
      · rintro ⟨⟩
        rfl
    | _ => exact ⟨nofun, nofun⟩
  | text s =>
    cases hw with
    | text t =>
      constructor
      · rintro ⟨⟩
        exact .text s
      · rintro ⟨⟩
        rfl
    | _ => exact ⟨nofun, nofun⟩
  | @list xs _ ih =>
    cases hw with
    | @list ys hys =>
      have hitems := map_arranged_eq_iff_forall₂ fun v hv w hw => ih v hv (hys w hw)
      rw [arranged_list, arranged_list, Value.list.injEq, hitems]
      constructor
      · exact .list
      · intro h
        cases h with
        | list hall => exact hall
    | _ => exact ⟨nofun, nofun⟩
  | @object ms _ hnames ih =>
    cases hw with
    | @object ns hns _ =>
      have hvalues : ∀ ks, ms.Perm ks →
          ((ks.map (·.2)).map arranged = (ns.map (·.2)).map arranged ↔
            List.Forall₂ Reordered (ks.map (·.2)) (ns.map (·.2))) := by
        intro ks hks
        apply map_arranged_eq_iff_forall₂
        intro v hv w hw
        obtain ⟨m, hm, rfl⟩ := List.mem_map.mp hv
        obtain ⟨n, hn, rfl⟩ := List.mem_map.mp hw
        exact ih m (hks.mem_iff.mpr hm) (hns n hn)
      rw [arranged_object_eq_iff hnames]
      constructor
      · rintro ⟨ks, hks, hsame, heq⟩
        exact .object hks hsame ((hvalues ks hks).mp heq)
      · intro h
        cases h with
        | object hks hsame hall => exact ⟨_, hks, hsame, (hvalues _ hks).mpr hall⟩
    | _ => exact ⟨nofun, nofun⟩

/-! ### Checksums -/

theorem exists_canonical {v : Value} (h : v.IsPlain) : ∃ s, v.canonical = .ok s := by
  rw [canonical, canonicalChars_eq h]
  exact ⟨_, rfl⟩

/-- Canonical texts are the same exactly if arranged forms are. -/
theorem canonical_eq_iff {v w : Value} (hv : v.IsPlain) (hw : w.IsPlain) {s t : String}
    (hs : v.canonical = .ok s) (ht : w.canonical = .ok t) : s = t ↔ v.arranged = w.arranged := by
  rw [canonical, canonicalChars_eq hv] at hs
  rw [canonical, canonicalChars_eq hw] at ht
  cases hs
  cases ht
  rw [String.ofList_inj]
  constructor
  · exact jsonChars_injective hv.arranged hw.arranged
  · intro h
    rw [h]

theorem digest_eq {v : Value} {s : String} (h : v.canonical = .ok s) :
    v.digest = .ok (Digest.ofText s) := by
  rw [digest, h]
  rfl

end Value

/-- The checksum of a library is the digest of its data. -/
theorem Library.checksum_ofValue {v : Value} {l : Library} (h : ofValue v = .ok l) :
    v.digest = .ok l.checksum := by
  cases v with
  | object members =>
    obtain ⟨categories, -, h⟩ := Attempt.bind_eq_ok.mp h
    obtain ⟨formulas, -, h⟩ := Attempt.bind_eq_ok.mp h
    obtain ⟨checksum, hchecksum, h⟩ := Attempt.bind_eq_ok.mp h
    cases h
    exact hchecksum
  | _ => cases h

/-- Data with an object in a list in an object. -/
def nested : Value :=
  .object [("é", .list [.int 1, .bool true, .object [("b", .null), ("a", .text "\"😀")]]),
    ("A", .object [])]

/-- The same data with the members of both objects turned round. -/
def nestedTurned : Value :=
  .object [("A", .object []),
    ("é", .list [.int 1, .bool true, .object [("a", .text "\"😀"), ("b", .null)]])]

theorem isPlain_nested : nested.IsPlain := by
  refine .object (List.forall_mem_cons.mpr ⟨.list ?_, List.forall_mem_singleton.mpr ?_⟩) (by decide)
  · simp only [List.forall_mem_cons]
    refine ⟨.int 1, .bool true, .object ?_ (by decide), nofun⟩
    simp only [List.forall_mem_cons]
    exact ⟨.null, .text _, nofun⟩
  · exact .object nofun List.nodup_nil

theorem reordered_nested : nested.Reordered nestedTurned := by
  refine .object (List.Perm.swap _ _ _) rfl (.cons ?_ (.cons ?_ .nil))
  · exact .object .nil rfl .nil
  · refine .list (.cons (.int 1) (.cons (.bool true) (.cons ?_ .nil)))
    exact .object (List.Perm.swap _ _ _) rfl (.cons (.text _) (.cons .null .nil))

theorem isPlain_nestedTurned : nestedTurned.IsPlain := by
  refine .object (List.forall_mem_cons.mpr ⟨.object nofun List.nodup_nil, ?_⟩) (by decide)
  refine List.forall_mem_singleton.mpr (.list ?_)
  simp only [List.forall_mem_cons]
  refine ⟨.int 1, .bool true, .object ?_ (by decide), nofun⟩
  simp only [List.forall_mem_cons]
  exact ⟨.text _, .null, nofun⟩

end KeyFigures
