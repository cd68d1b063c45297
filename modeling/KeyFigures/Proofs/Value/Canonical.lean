/-
  KeyFigures/Proofs/Value/Canonical.lean
  ======================================
  **Canonical texts tell data apart.**

  The canonical text of plain data is the JSON text of its arranged form, in
  which the members of every object stand in the order of their names
  (`canonicalChars_eq`).  Two data have one canonical text exactly if their
  arranged forms are the same (`canonicalChars_inj`), that is, if they differ
  in nothing but the order of members.
-/
import KeyFigures.Value.Canonical
import KeyFigures.Proofs.Value.Reading

namespace KeyFigures.Value

open KeyFigures.Text

/-! ### Arranged data -/

mutual

/-- The data with the members of every object in the order of their names. -/
def arranged : Value → Value
  | .list items => .list (arrangedItems items)
  | .object members => .object (sortMembers (arrangedMembers members))
  | v => v

def arrangedItems : List Value → List Value
  | [] => []
  | v :: rest => v.arranged :: arrangedItems rest

def arrangedMembers : List (String × Value) → List (String × Value)
  | [] => []
  | (name, v) :: rest => (name, v.arranged) :: arrangedMembers rest

end

@[simp]
theorem arranged_text (s : String) : (Value.text s).arranged = .text s := by
  rw [arranged] <;> nofun

theorem arrangedItems_eq_map (items : List Value) : arrangedItems items = items.map arranged := by
  induction items with
  | nil => rfl
  | cons v items ih => rw [arrangedItems, ih, List.map_cons]

theorem arrangedMembers_eq_map (members : List (String × Value)) :
    arrangedMembers members = members.map fun m => (m.1, m.2.arranged) := by
  induction members with
  | nil => rfl
  | cons m members ih => rw [arrangedMembers, ih, List.map_cons]

theorem sortMembers_perm {α : Type} (members : List (String × α)) :
    (sortMembers members).Perm members :=
  List.mergeSort_perm members _

theorem sortMembers_pair {α : Type} {a b : String} (h : a ≤ b) (x y : α) :
    sortMembers [(a, x), (b, y)] = [(a, x), (b, y)] :=
  List.mergeSort_of_pairwise (by simpa using h)

/-- Sorting looks at the names only. -/
theorem sortMembers_map {α β : Type} (f : String × α → β) (members : List (String × α)) :
    sortMembers (members.map fun m => (m.1, f m)) =
      (sortMembers members).map fun m => (m.1, f m) := by
  unfold sortMembers
  rw [List.map_mergeSort]
  exact fun a _ b _ => rfl

theorem IsPlain.arranged {v : Value} (h : v.IsPlain) : v.arranged.IsPlain := by
  induction h with
  | null => exact .null
  | bool b => exact .bool b
  | int n => exact .int n
  | text s => exact .text s
  | list h ih =>
    rw [Value.arranged, arrangedItems_eq_map]
    apply IsPlain.list
    intro v hv
    obtain ⟨w, hw, rfl⟩ := List.mem_map.mp hv
    exact ih w hw
  | @object members h hnames ih =>
    rw [Value.arranged, arrangedMembers_eq_map]
    have hperm := sortMembers_perm (members.map fun m => (m.1, m.2.arranged))
    apply IsPlain.object
    · intro m hm
      obtain ⟨w, hw, rfl⟩ := List.mem_map.mp (hperm.mem_iff.mp hm)
      exact ih w hw
    · rw [(hperm.map Prod.fst).nodup_iff, List.map_map]
      exact hnames

/-! ### The canonical text -/

theorem joined_map_jsonChars (items : List Value) : joined (items.map jsonChars) = jsonItems items := by
  induction items with
  | nil => rfl
  | cons v items ih =>
    cases items with
    | nil => rfl
    | cons w items =>
      rw [jsonItems, ← ih]
      · rfl
      · simp

theorem joined_map_members (members : List (String × Value)) :
    joined (members.map fun m => jsonText m.1 ++ ':' :: m.2.jsonChars) = jsonMembers members := by
  induction members with
  | nil => rfl
  | cons m members ih =>
    cases members with
    | nil => rfl
    | cons w members =>
      rw [jsonMembers, ← ih]
      · simp [joined]
      · simp

theorem canonicalItems_eq {items : List Value}
    (h : ∀ v ∈ items, v.canonicalChars = .ok v.arranged.jsonChars) :
    canonicalItems items = .ok ((arrangedItems items).map jsonChars) := by
  induction items with
  | nil => rfl
  | cons v items ih =>
    rw [canonicalItems, h v List.mem_cons_self, ih fun w hw => h w (List.mem_cons_of_mem _ hw)]
    rfl

theorem canonicalMembers_eq_map (members : List (String × Value)) :
    canonicalMembers members = members.map fun m =>
      (m.1, m.2.canonicalChars.map fun part => jsonText m.1 ++ ':' :: part) := by
  induction members with
  | nil => rfl
  | cons m members ih => rw [canonicalMembers, ih, List.map_cons]

theorem mapM_ok {α β : Type} (f : α → Attempt β) (g : α → β) {xs : List α}
    (h : ∀ x ∈ xs, f x = .ok (g x)) : xs.mapM f = .ok (xs.map g) := by
  induction xs with
  | nil => rfl
  | cons x xs ih =>
    rw [List.mapM_cons, h x List.mem_cons_self, ih fun y hy => h y (List.mem_cons_of_mem _ hy)]
    rfl

theorem canonicalChars_object {members : List (String × Value)}
    (h : ∀ m ∈ members, m.2.canonicalChars = .ok m.2.arranged.jsonChars) :
    (Value.object members).canonicalChars = .ok (Value.object members).arranged.jsonChars := by
  have hparts : (sortMembers (canonicalMembers members)).mapM (·.2) =
      .ok ((sortMembers (arrangedMembers members)).map fun m =>
        jsonText m.1 ++ ':' :: m.2.jsonChars) := by
    rw [canonicalMembers_eq_map, arrangedMembers_eq_map,
      sortMembers_map fun m : String × Value =>
        m.2.canonicalChars.map fun part => jsonText m.1 ++ ':' :: part,
      sortMembers_map fun m : String × Value => m.2.arranged, List.mapM_map, List.map_map]
    apply mapM_ok
    intro m hm
    have hm := h m ((sortMembers_perm members).mem_iff.mp hm)
    simp only [Function.comp_apply, hm]
    rfl
  rw [canonicalChars, hparts, arranged, jsonChars, ← joined_map_members]
  rfl

/-- The canonical text of plain data is the text of its arranged form. -/
theorem canonicalChars_eq {v : Value} (h : v.IsPlain) :
    v.canonicalChars = .ok v.arranged.jsonChars := by
  induction h with
  | null => rfl
  | bool b => rfl
  | int n => rfl
  | text s => rfl
  | list h ih =>
    rw [canonicalChars, canonicalItems_eq ih, arranged, jsonChars, ← joined_map_jsonChars]
    rfl
  | object h hnames ih => exact canonicalChars_object ih

/-- Plain data with one canonical text has one arranged form. -/
theorem canonicalChars_inj {v w : Value} (hv : v.IsPlain) (hw : w.IsPlain) :
    v.canonicalChars = w.canonicalChars ↔ v.arranged = w.arranged := by
  rw [canonicalChars_eq hv, canonicalChars_eq hw, Except.ok.injEq]
  constructor
  · exact jsonChars_injective hv.arranged hw.arranged
  · intro h
    rw [h]

/-! ### Members -/

theorem lookup?_eq_some_iff {members : List (String × Value)} {name : String} {v : Value}
    (h : (members.map (·.1)).Nodup) : lookup? members name = some v ↔ (name, v) ∈ members := by
  unfold lookup?
  induction members with
  | nil => simp
  | cons m members ih =>
    rw [List.map_cons, List.nodup_cons] at h
    by_cases hm : m.1 = name
    · subst hm
      have hnew : (m.1, v) ∉ members := fun hmem => h.1 (List.mem_map.mpr ⟨_, hmem, rfl⟩)
      simp only [List.find?_cons, BEq.rfl, Option.map_some, Option.some.injEq, List.mem_cons, hnew,
        or_false]
      constructor
      · rintro rfl
        rfl
      · intro heq
        rw [← heq]
    · have hne : (m.1 == name) = false := by simpa using hm
      have hhead : (name, v) ≠ m := by
        rintro rfl
        exact hm rfl
      rw [List.find?_cons, hne]
      simp only [List.mem_cons, hhead, false_or]
      exact ih h.2

theorem lookup?_map_arranged (members : List (String × Value)) (name : String) :
    lookup? (members.map fun m => (m.1, m.2.arranged)) name =
      (lookup? members name).map arranged := by
  unfold lookup?
  induction members with
  | nil => rfl
  | cons m members ih =>
    simp only [List.map_cons, List.find?_cons]
    split
    · rfl
    · exact ih

/-- Objects with one arranged form have, by name, members with one arranged
    form. -/
theorem arranged_lookup?_congr {ms ns : List (String × Value)} (hms : (ms.map (·.1)).Nodup)
    (hns : (ns.map (·.1)).Nodup)
    (h : (Value.object ms).arranged = (Value.object ns).arranged) (name : String) :
    (lookup? ms name).map arranged = (lookup? ns name).map arranged := by
  rw [arranged, arranged, Value.object.injEq, arrangedMembers_eq_map, arrangedMembers_eq_map] at h
  have hperm : (ms.map fun m => (m.1, m.2.arranged)).Perm (ns.map fun m => (m.1, m.2.arranged)) :=
    (sortMembers_perm _).symm.trans (h ▸ sortMembers_perm _)
  rw [← lookup?_map_arranged, ← lookup?_map_arranged]
  apply Option.ext
  intro v
  have hnames : ∀ members : List (String × Value), (members.map (·.1)).Nodup →
      ((members.map fun m => (m.1, m.2.arranged)).map (·.1)).Nodup := by
    intro members hmembers
    rw [List.map_map]
    exact hmembers
  rw [lookup?_eq_some_iff (hnames ms hms), lookup?_eq_some_iff (hnames ns hns), hperm.mem_iff]

end KeyFigures.Value
