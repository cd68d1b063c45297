/-
  KeyFigures/Proofs/Log/Carried.lean
  ==================================
  **Records carry what is bound.**

  A record shows the text of every field that was bound when it was made
  (`Context.Marks.shows`): neither the data given with a message nor the
  envelope of the record hides one.  Recorded work is put together from attempts,
  messages and questions for the level (`Recorded.Composed`), so what it adds to
  a journal was made in the context of that journal (`Composed.written_play`).

  Whatever a block binds, its end gives every field the text that it had before
  (`Context.restore_bind`).
-/
import KeyFigures.Proofs.Log.Steady

namespace KeyFigures.Log

/-! ### Bindings are undone -/

namespace Context

theorem put_put (c : Context) (f : Field) (v w : Option String) : (c.put f v).put f w = c.put f w := by
  cases f <;> rfl

theorem put_get (c : Context) (f : Field) : c.put f (c.get f) = c := by
  cases f <;> rfl

/-- A binding is undone before those that were made before it. -/
theorem restore_go (c : Context) (saved : Saved) (fields : List (String × Value)) {saved' : Saved}
    {c' : Context} (h : bind.go c saved fields = (.ok saved', c')) :
    c'.restore saved' = c.restore saved := by
  induction fields generalizing c saved with
  | nil =>
    cases h
    rfl
  | cons field fields ih =>
    obtain ⟨name, v⟩ := field
    unfold bind.go at h
    split at h
    · exact ih c saved h
    · split at h
      · cases h
      · rename_i f _
        have hundone : ((c.put f (some v.display)).put f (c.get f)).restore saved =
            c.restore saved := by rw [put_put, put_get]
        exact (ih _ _ h).trans hundone

/-- After a block everything is bound as it was before. -/
theorem restore_bind {c c' : Context} {fields : List (String × Value)} {saved : Saved}
    (h : c.bind fields = (.ok saved, c')) : c'.restore saved = c :=
  restore_go c [] fields h

/-- Binding fields by their names sets them. -/
theorem bind_names (c : Context) (fields : List (Field × Value)) :
    (c.bind (fields.map fun (f, v) => (f.name, v))).2 = c.set fields := by
  have hgo : ∀ saved, (bind.go c saved (fields.map fun (f, v) => (f.name, v))).2 =
      c.set fields := by
    induction fields generalizing c with
    | nil => exact fun _ => rfl
    | cons field fields ih =>
      obtain ⟨f, v⟩ := field
      have hname : Field.ofName? f.name = some f := by cases f <;> rfl
      intro saved
      simp only [List.map_cons, bind.go, hname, set, List.foldl_cons]
      split
      · exact ih c saved
      · exact ih _ _
  exact hgo []

end Context

/-! ### What a record shows -/

theorem lookup?_append (xs ys : List (String × Value)) (name : String) :
    Value.lookup? (xs ++ ys) name = (Value.lookup? xs name).or (Value.lookup? ys name) := by
  unfold Value.lookup?
  rw [List.find?_append, Option.map_or]

theorem lookup?_map_encode (members : List (String × Value)) (name : String) :
    Value.lookup? (members.map fun (n, v) => (n, encode v)) name =
      (Value.lookup? members name).map encode := by
  unfold Value.lookup?
  rw [List.find?_map, Option.map_map, Option.map_map]
  rfl

theorem lookup?_toList (c : Context) (f : Field) :
    Value.lookup? (c.toList.map fun (name, v) => (name, .text v)) f.name =
      (c.get f).map .text := by
  obtain ⟨request, entity, year, formula⟩ := c
  cases f <;> cases request <;> cases entity <;> cases year <;> cases formula <;> rfl

/-- A record shows a field that is bound, whatever is given with the message. -/
theorem lookup?_record {c : Context} {f : Field} {text : String} (h : c.get f = some text)
    (level : Value) (logger message : String) (extra : List (String × Value)) :
    Value.lookup? (record c level logger message extra none) f.name = some (.text text) := by
  have hhead : ∀ first second third : Value,
      Value.lookup? [("level", first), ("logger", second), ("message", third)] f.name = none := by
    cases f <;> exact fun _ _ _ => rfl
  unfold record
  dsimp only
  rw [lookup?_map_encode, lookup?_append, lookup?_append, hhead, lookup?_toList, h]
  rfl

/-- The record was made for a message in the context. -/
def Context.Marks (c : Context) (r : Record) : Prop :=
  ∃ level logger message extra, r = record c level logger message extra none

/-- The record shows the data as the text of the field. -/
def Field.IsShown (f : Field) (v : Value) (r : Record) : Prop :=
  Value.lookup? r f.name = some (.text v.display)

theorem Context.Marks.isShown {c : Context} {r : Record} (hr : c.Marks r) {f : Field} {v : Value}
    (h : c.get f = some v.display) : f.IsShown v r := by
  obtain ⟨level, logger, message, extra, rfl⟩ := hr
  exact lookup?_record h level logger message extra

namespace Recorded

variable {α β : Type}

/-! ### Composed work -/

/-- Work that is put together from attempts, messages and questions for the
    level. -/
inductive Composed : {α : Type} → Recorded α → Prop where
  | attempt {α : Type} (r : Attempt α) : Composed (Recorded.attempt r)
  | isEnabled (level : Level) : Composed (Log.isEnabled level)
  | event (level : Level) (logger message : String) (extra : List (String × Value)) :
      Composed (Log.event level logger message extra)
  | bind {α β : Type} {work : Recorded α} {next : α → Recorded β} (hwork : Composed work)
      (hnext : ∀ a, Composed (next a)) : Composed (work >>= next)

namespace Composed

theorem pure (a : α) : Composed (Pure.pure a : Recorded α) := .attempt (.ok a)

theorem throw (f : Failure) : Composed (MonadExcept.throw f : Recorded α) := .attempt (.error f)

theorem forM {items : List α} {work : α → Recorded Unit} (h : ∀ a, Composed (work a)) :
    Composed (items.forM work) := by
  induction items with
  | nil => exact .pure ()
  | cons a items ih => exact .bind (h a) fun _ => ih

/-- Such work does not look at the records. -/
theorem blind {work : Recorded α} (h : Composed work) : Blind work := by
  induction h with
  | attempt r => exact .attempt r
  | isEnabled level => exact .isEnabled level
  | event level logger message extra => exact .event level logger message extra
  | bind _ _ hwork hnext => exact .bind hwork hnext

theorem keepsSetup {work : Recorded α} (h : Composed work) : KeepsSetup work := h.blind.keepsSetup

/-- What is added to a journal was made in its context, which stays bound. -/
theorem exists_added {work : Recorded α} (h : Composed work) (j : Journal) :
    (work.play j).2.context = j.context ∧
      ∃ added, (work.play j).2.records = added ++ j.records ∧ ∀ r ∈ added, j.context.Marks r := by
  induction h generalizing j with
  | attempt r => exact ⟨rfl, [], rfl, nofun⟩
  | isEnabled level => exact ⟨rfl, [], rfl, nofun⟩
  | event level logger message extra =>
    rw [play_event, add_int]
    split
    · rename_i j' hadd
      split at hadd
      · obtain ⟨fields, -, hadded⟩ := Attempt.bind_eq_ok.mp hadd
        cases hadded
        split
        · exact ⟨rfl, [record j.context (.int level) logger message fields none], rfl,
            fun r hr => ⟨_, _, _, _, List.mem_singleton.mp hr⟩⟩
        · exact ⟨rfl, [], rfl, nofun⟩
      · cases hadd
        exact ⟨rfl, [], rfl, nofun⟩
    · exact ⟨rfl, [], rfl, nofun⟩
  | @bind α β work next _ _ hwork hnext =>
    obtain ⟨hcontext, first, hfirst, hmarked⟩ := hwork j
    rw [play_bind]
    revert hcontext hfirst
    rcases work.play j with ⟨f | a, j'⟩ <;> intro hcontext hfirst
    · exact ⟨hcontext, first, hfirst, hmarked⟩
    · obtain ⟨hcontext', second, hsecond, hmarked'⟩ := hnext a j'
      refine ⟨hcontext'.trans hcontext, second ++ first, ?_, fun r hr => ?_⟩
      · rw [hsecond, List.append_assoc]
        exact congrArg (second ++ ·) hfirst
      · rcases List.mem_append.mp hr with hr | hr
        · exact hcontext ▸ hmarked' r hr
        · exact hmarked r hr

end Composed

/-! ### What work adds to a journal -/

/-- The records that work adds to a journal, the oldest first. -/
def adds (work : Recorded α) (j : Journal) : List Record :=
  (work.play j).2.written.drop j.written.length

/-- The records of a journal stay, and those that are added come after them. -/
theorem Composed.written_play {work : Recorded α} (h : Composed work) (j : Journal) :
    (work.play j).2.written = j.written ++ work.adds j ∧ ∀ r ∈ work.adds j, j.context.Marks r := by
  obtain ⟨-, added, hadded, hmarked⟩ := h.exists_added j
  have hwritten : (work.play j).2.written = j.written ++ added.reverse := by
    unfold Journal.written
    rw [hadded, List.reverse_append]
  have hadds : work.adds j = added.reverse := by
    unfold adds
    rw [hwritten, List.drop_left]
  rw [hadds]
  exact ⟨hwritten, fun r hr => hmarked r (List.mem_reverse.mp hr)⟩

/-- Work that returns something goes on after its first step, in the same setup
    and context, and adds to what that has added. -/
theorem Composed.exists_adds_bind {work : Recorded α} {next : α → Recorded β}
    (hwork : Composed work) (hnext : ∀ a, Composed (next a)) {j : Journal} {b : β}
    (h : ((work >>= next).play j).1 = .ok b) :
    ∃ a j', (work.play j).1 = .ok a ∧ ((next a).play j').1 = .ok b ∧ j'.setup = j.setup ∧
      j'.context = j.context ∧ (work >>= next).adds j = work.adds j ++ (next a).adds j' := by
  obtain ⟨a, ha, hb⟩ := exists_of_play_bind h
  have hfirst := (hwork.written_play j).1
  have hsecond := ((hnext a).written_play (work.play j).2).1
  refine ⟨a, (work.play j).2, ha, hb, hwork.keepsSetup j, (hwork.exists_added j).1, ?_⟩
  have hplay : (work >>= next).play j = (next a).play (work.play j).2 := by
    rw [play_bind, show work.play j = (.ok a, (work.play j).2) from Prod.ext ha rfl]
  have hwritten : ((work >>= next).play j).2.written =
      j.written ++ (work.adds j ++ (next a).adds (work.play j).2) := by
    rw [hplay, hsecond, hfirst, List.append_assoc]
  rw [adds, hwritten, List.drop_left]

/-- A message that counts is recorded, if it can be. -/
theorem exists_mem_adds_event {level : Level} {logger message : String}
    {extra : List (String × Value)} {j : Journal} (hlevel : j.setup.isEnabled level = true)
    (hconfigured : j.setup.configured.isSome = true)
    (h : ((event level logger message extra).play j).1 = .ok ()) :
    ∃ fields, record j.context (.int level) logger message fields none ∈
      (event level logger message extra).adds j := by
  unfold adds
  simp only [play_event, add_int, hlevel, hconfigured, if_true] at h ⊢
  cases hfields : extraFields (.object extra) with
  | error f =>
    rw [hfields] at h
    cases h
  | ok fields =>
    refine ⟨fields, ?_⟩
    show _ ∈ (record j.context _ _ _ fields none :: j.records).reverse.drop j.records.reverse.length
    rw [List.reverse_cons, List.drop_left]
    exact List.mem_singleton_self _

end Recorded

end KeyFigures.Log
