/-
  KeyFigures/Proofs/Log/Steady.lean
  =================================
  **What recorded work comes to.**

  Recorded work extends the journal it is given and leaves its setup alone
  (`KeepsSetup`).  Its outcome may depend on the journal through the setup only:
  while details are recorded an evaluation does more.  Work is blind (`Blind`)
  if nothing else of the journal matters.  Work is steady (`Steady`) if it comes
  to the same in every journal that records no details; fetching a ledger and
  evaluating a formula are.
-/
import KeyFigures.Log.Journal
import Mathlib

namespace KeyFigures.Log

/-- No details are recorded. -/
def Journal.IsQuiet (j : Journal) : Prop := j.setup.isEnabled debug = false

namespace Recorded

variable {α β : Type}

/-- What work comes to in a journal, and the journal afterwards. -/
def play (work : Recorded α) (j : Journal) : Attempt α × Journal := (work.run.run j : Id _)

theorem play_bind (work : Recorded α) (next : α → Recorded β) (j : Journal) :
    (work >>= next).play j =
      match work.play j with
      | (.ok a, j) => (next a).play j
      | (.error f, j) => (.error f, j) := by
  show (ExceptT.bind work next) j = _
  simp only [ExceptT.bind, ExceptT.mk, play, ExceptT.run, StateT.run, bind, StateT.bind,
    ExceptT.bindCont]
  rcases work j with ⟨f | a, j⟩ <;> rfl

/-- Work in two steps comes to what the second step comes to after the first. -/
theorem fst_play_bind (work : Recorded α) (next : α → Recorded β) (j : Journal) :
    ((work >>= next).play j).1 =
      (work.play j).1 >>= fun a => ((next a).play (work.play j).2).1 := by
  rw [play_bind]
  rcases work.play j with ⟨f | a, j⟩ <;> rfl

/-- Work that returns something returned something at every step. -/
theorem exists_of_play_bind {work : Recorded α} {next : α → Recorded β} {j : Journal} {b : β}
    (h : ((work >>= next).play j).1 = .ok b) :
    ∃ a, (work.play j).1 = .ok a ∧ ((next a).play (work.play j).2).1 = .ok b := by
  rw [play_bind] at h
  revert h
  rcases work.play j with ⟨f | a, j'⟩ <;> intro h
  · cases h
  · exact ⟨a, rfl, h⟩

@[simp]
theorem play_pure (a : α) (j : Journal) : (pure a : Recorded α).play j = (.ok a, j) := rfl

@[simp]
theorem play_throw (f : Failure) (j : Journal) :
    (throw f : Recorded α).play j = (.error f, j) := rfl

@[simp]
theorem play_attempt (r : Attempt α) (j : Journal) : (attempt r).play j = (r, j) := rfl

/-- A message is recorded, or its failure ends the work. -/
theorem play_event (level : Level) (logger message : String) (extra : List (String × Value))
    (j : Journal) :
    (event level logger message extra).play j =
      match j.add (.int level) logger message (.object extra) none with
      | .ok j => (.ok (), j)
      | .error f => (.error f, j) := rfl

theorem add_int (j : Journal) (level : Level) (logger message : String) (extra : Value) :
    j.add (.int level) logger message extra none =
      if j.setup.isEnabled level then do
        let fields ← extraFields extra
        .ok (if j.setup.configured.isSome then
          { j with records := record j.context (.int level) logger message fields none :: j.records }
          else j)
      else .ok j := rfl

/-! ### Work that leaves the setup alone -/

/-- The setup of the journal stays as it is. -/
def KeepsSetup (work : Recorded α) : Prop := ∀ j, (work.play j).2.setup = j.setup

namespace KeepsSetup

theorem pure (a : α) : KeepsSetup (Pure.pure a : Recorded α) := fun _ => rfl

theorem throw (f : Failure) : KeepsSetup (MonadExcept.throw f : Recorded α) := fun _ => rfl

theorem attempt (r : Attempt α) : KeepsSetup (attempt r) := fun _ => rfl

theorem isEnabled (level : Level) : KeepsSetup (isEnabled level) := fun _ => rfl

theorem bind {work : Recorded α} {next : α → Recorded β} (hwork : KeepsSetup work)
    (hnext : ∀ a, KeepsSetup (next a)) : KeepsSetup (work >>= next) := by
  intro j
  rw [play_bind]
  have hj := hwork j
  revert hj
  rcases work.play j with ⟨f | a, j'⟩ <;> intro hj
  · exact hj
  · exact (hnext a j').trans hj

end KeepsSetup

theorem setup_add {j j' : Journal} {level : Value} {logger message : String} {extra : Value}
    {failure : Option Failure} (h : j.add level logger message extra failure = .ok j') :
    j'.setup = j.setup := by
  unfold Journal.add at h
  obtain ⟨rank, -, h⟩ := Attempt.bind_eq_ok.mp h
  split at h
  · obtain ⟨fields, -, h⟩ := Attempt.bind_eq_ok.mp h
    cases h
    split <;> rfl
  · cases h
    rfl

theorem KeepsSetup.event (level : Level) (logger message : String)
    (extra : List (String × Value)) : KeepsSetup (event level logger message extra) := by
  intro j
  rw [play_event]
  cases hadd : j.add (.int level) logger message (.object extra) none with
  | error f => rfl
  | ok j' => exact setup_add hadd

/-! ### Work that does not look at the records -/

/-- What the work comes to depends on the journal by its setup only. -/
structure Blind (work : Recorded α) : Prop where
  keepsSetup : KeepsSetup work
  play_eq : ∀ j j' : Journal, j.setup = j'.setup → (work.play j).1 = (work.play j').1

namespace Blind

theorem attempt (r : Attempt α) : Blind (Recorded.attempt r) := ⟨.attempt r, fun _ _ _ => rfl⟩

theorem isEnabled (level : Level) : Blind (Log.isEnabled level) := by
  refine ⟨.isEnabled level, fun j j' h => ?_⟩
  show Except.ok (j.setup.isEnabled level) = Except.ok (j'.setup.isEnabled level)
  rw [h]

theorem bind {work : Recorded α} {next : α → Recorded β} (hwork : Blind work)
    (hnext : ∀ a, Blind (next a)) : Blind (work >>= next) := by
  refine ⟨hwork.keepsSetup.bind fun a => (hnext a).keepsSetup, fun j j' h => ?_⟩
  have houtcome := hwork.play_eq j j' h
  have hsetup : (work.play j).2.setup = (work.play j').2.setup := by
    rw [hwork.keepsSetup j, hwork.keepsSetup j', h]
  rw [play_bind, play_bind]
  revert houtcome hsetup
  rcases work.play j with ⟨f | a, i⟩ <;> rcases work.play j' with ⟨f' | a', i'⟩ <;>
    intro houtcome hsetup
  · cases houtcome
    rfl
  · cases houtcome
  · cases houtcome
  · cases houtcome
    exact (hnext a).play_eq i i' hsetup

/-- Whether a message can be recorded depends on its fields and its level. -/
theorem event (level : Level) (logger message : String) (extra : List (String × Value)) :
    Blind (event level logger message extra) := by
  refine ⟨.event level logger message extra, fun j j' h => ?_⟩
  rw [play_event, play_event, add_int, add_int, h]
  cases j'.setup.isEnabled level with
  | false => rfl
  | true => cases extraFields (.object extra) <;> rfl

end Blind

/-! ### Steady work -/

/-- In every journal without details the work comes to `r`. -/
structure Steady (work : Recorded α) (r : Attempt α) : Prop where
  keepsSetup : KeepsSetup work
  play_eq : ∀ j : Journal, j.IsQuiet → (work.play j).1 = r

namespace Steady

theorem pure (a : α) : Steady (Pure.pure a) (.ok a) := ⟨.pure a, fun _ _ => rfl⟩

theorem throw (f : Failure) : Steady (MonadExcept.throw f : Recorded α) (.error f) :=
  ⟨.throw f, fun _ _ => rfl⟩

theorem attempt (r : Attempt α) : Steady (attempt r) r := ⟨.attempt r, fun _ _ => rfl⟩

theorem bind {work : Recorded α} {r : Attempt α} {next : α → Recorded β} {g : α → Attempt β}
    (hwork : Steady work r) (hnext : ∀ a, Steady (next a) (g a)) :
    Steady (work >>= next) (r >>= g) := by
  refine ⟨hwork.keepsSetup.bind fun a => (hnext a).keepsSetup, ?_⟩
  intro j hj
  have hr := hwork.play_eq j hj
  have hsetup := hwork.keepsSetup j
  rw [play_bind]
  revert hr hsetup
  rcases work.play j with ⟨f | a, j'⟩ <;> intro hr hsetup
  · obtain rfl : _ = r := hr
    rfl
  · obtain rfl : _ = r := hr
    refine (hnext a).play_eq j' ?_
    unfold Journal.IsQuiet at hj ⊢
    rwa [show j'.setup = j.setup from hsetup]

/-- Work after a steady step only needs to be steady for what the step comes
    to. -/
theorem after {work : Recorded α} {a : α} {next : α → Recorded β} {r : Attempt β}
    (hwork : Steady work (.ok a)) (hkeeps : ∀ b, KeepsSetup (next b))
    (hnext : Steady (next a) r) : Steady (work >>= next) r := by
  refine ⟨hwork.keepsSetup.bind hkeeps, ?_⟩
  intro j hj
  have hr := hwork.play_eq j hj
  have hsetup := hwork.keepsSetup j
  rw [play_bind]
  revert hr hsetup
  rcases work.play j with ⟨f | b, j'⟩ <;> intro hr hsetup
  · cases hr
  · cases hr
    refine hnext.play_eq j' ?_
    unfold Journal.IsQuiet at hj ⊢
    rwa [show j'.setup = j.setup from hsetup]

end Steady

/-- Fields that a call may give can be recorded. -/
theorem extraFields_object {extra : List (String × Value)} {names : List String}
    (hnames : extra.map Prod.fst = names)
    (h : ∀ name ∈ names, (refusedFields ++ reservedFields).contains name = false) :
    ∃ fields, extraFields (.object extra) = .ok fields := by
  have hfield : ∀ name ∈ names, extraField (.object extra) (.text name) =
      .ok (name, (Value.lookup? extra name).getD .null) := by
    intro name hname
    have hrefuse : refuseField name = .ok () := by
      unfold refuseField
      rw [h name hname]
      rfl
    show (do
      refuseField name
      .ok (name, (Value.lookup? extra name).getD .null) : Attempt (String × Value)) = _
    rw [hrefuse]
    rfl
  have hkeys : (Value.object extra).items? = some (names.map .text) := by
    rw [← hnames, List.map_map]
    rfl
  have hall : ∀ rest : List String, rest ⊆ names →
      ∃ fields, (rest.map Value.text).mapM (extraField (.object extra)) = .ok fields := by
    intro rest hrest
    induction rest with
    | nil => exact ⟨[], rfl⟩
    | cons name rest ih =>
      obtain ⟨fields, hfields⟩ := ih fun x hx => hrest (List.mem_cons_of_mem _ hx)
      refine ⟨(name, (Value.lookup? extra name).getD .null) :: fields, ?_⟩
      rw [List.map_cons, List.mapM_cons, hfield name (hrest List.mem_cons_self), hfields]
      rfl
  obtain ⟨fields, hfields⟩ := hall names fun _ hx => hx
  refine ⟨fields, ?_⟩
  unfold extraFields
  rw [hkeys]
  exact hfields

/-- Recording a message with such fields never fails. -/
theorem fst_play_event (level : Level) (logger message : String) {extra : List (String × Value)}
    (names : List String) (hnames : extra.map Prod.fst = names)
    (h : ∀ name ∈ names, (refusedFields ++ reservedFields).contains name = false) (j : Journal) :
    ((event level logger message extra).play j).1 = .ok () := by
  obtain ⟨fields, hfields⟩ := extraFields_object hnames h
  have hadd : ∃ j', j.add (.int level) logger message (.object extra) none = .ok j' := by
    simp only [add_int]
    rw [hfields]
    split
    · exact ⟨_, rfl⟩
    · exact ⟨_, rfl⟩
  obtain ⟨j', hj'⟩ := hadd
  rw [play_event, hj']

theorem Steady.event (level : Level) (logger message : String) {extra : List (String × Value)}
    (names : List String) (hnames : extra.map Prod.fst = names)
    (h : ∀ name ∈ names, (refusedFields ++ reservedFields).contains name = false) :
    Steady (event level logger message extra) (.ok ()) :=
  ⟨.event level logger message extra, fun j _ => fst_play_event level logger message names hnames h j⟩

end Recorded

end KeyFigures.Log
